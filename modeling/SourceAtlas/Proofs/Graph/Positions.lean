import SourceAtlas.Proofs.Document.Pruning
import SourceAtlas.Proofs.Graph.OnePass

/-!
# Where inserted files stand

Files that are inserted at paths of names, each at the path that it records, get places whose paths
tell them apart: a directory has the path of its keys, a file the path that it was inserted at, and
if no file is inserted below another one the two never meet. `CanonicalInserts.distinctPaths` says
so, and `exists_place_insertAll` that every inserted file has a place.
-/

namespace SourceAtlas

open Text Resolution

/-- The path that a step leads to from the directory at a path. A file records its own path. -/
def Step.follow (path : String) : Step → String
  | .directory key => childPath path key
  | .file _ => path

theorem Step.not_before_self (step : Step) : ¬ Step.Before step step := by
  rintro (h | _ | h)
  · exact String.lt_irrefl _ h
  · exact Nat.lt_irrefl _ h

namespace Directory

/-! ### Places and chains of keys -/

mutual

/-- The path of a directory's place is that of the keys that lead to it. -/
theorem follow_of_mem_placesFrom (first : Nat) (parent : Option Nat) (path : String)
    (steps : List Step) : (directory : Directory) → {place : Place} →
    place ∈ directory.placesFrom first parent path steps → place.item.isDirectory = true →
      ∃ rest, place.steps = steps ++ rest ∧ place.path = rest.foldl Step.follow path
  | ⟨name, root, files, directories⟩, place, h, hitem => by
    simp only [placesFrom, List.mem_cons, List.mem_append, mem_placesOfFiles] at h
    rcases h with rfl | h | ⟨position, file, -, rfl⟩
    · exact ⟨[], by simp, rfl⟩
    · exact follow_of_mem_placesOfAll (first + 1) first path steps directories h hitem
    · cases hitem

theorem follow_of_mem_placesOfAll (first parent : Nat) (path : String) (steps : List Step) :
    (directories : List (String × Directory)) → {place : Place} →
    place ∈ placesOfAll first parent path steps directories → place.item.isDirectory = true →
      ∃ rest, place.steps = steps ++ rest ∧ place.path = rest.foldl Step.follow path
  | [], _, h, _ => by simp [placesOfAll] at h
  | (key, child) :: others, place, h, hitem => by
    simp only [placesOfAll, List.mem_append] at h
    rcases h with h | h
    · obtain ⟨rest, hsteps, hpath⟩ := follow_of_mem_placesFrom _ _ _ _ child h hitem
      exact ⟨.directory key :: rest, by simpa using hsteps, hpath⟩
    · exact follow_of_mem_placesOfAll _ _ _ _ others h hitem

end

/-- What the directory at a chain of keys holds, the tree holds below these keys. -/
theorem Holds.of_at? {directory found : Directory} {chain : List String}
    (h : directory.at? chain = some found) {steps : List Step} {item : TreeItem}
    (hfound : found.Holds steps item) :
    directory.Holds (chain.map Step.directory ++ steps) item := by
  induction chain generalizing directory with
  | nil =>
    rw [at?_nil, Option.some.injEq] at h
    subst h
    exact hfound
  | cons key chain ih =>
    rw [at?_cons] at h
    obtain ⟨child, hchild, hrest⟩ := Option.bind_eq_some_iff.1 h
    exact .inside (mem_of_child? hchild) (ih hrest)

/-- What a tree in order holds is the directory at a chain of keys, or a file in it. -/
theorem Holds.exists_at? {directory : Directory} {steps : List Step} {item : TreeItem}
    (h : directory.Holds steps item) (hordered : directory.Ordered) :
    ∃ chain found, directory.at? chain = some found ∧
      (steps = chain.map Step.directory ∧ item = .directory found.name ∨
        ∃ position file, steps = chain.map Step.directory ++ [.file position] ∧
          found.files[position]? = some file ∧ item = .file file) := by
  induction h with
  | self directory => exact ⟨[], directory, at?_nil directory, .inl ⟨rfl, rfl⟩⟩
  | @file directory position entry h =>
    exact ⟨[], directory, at?_nil directory, .inr ⟨position, entry, rfl, h, rfl⟩⟩
  | @inside directory child key steps item hkey h ih =>
    have hchild := hordered.child?_of_mem hkey
    obtain ⟨chain, found, hfound, hcases⟩ := ih (hordered.child? hchild)
    refine ⟨key :: chain, found, by rw [at?_cons, hchild, Option.bind_some, hfound], ?_⟩
    rcases hcases with ⟨rfl, hitem⟩ | ⟨position, file, rfl, hfile, hitem⟩
    · exact .inl ⟨rfl, hitem⟩
    · exact .inr ⟨position, file, rfl, hfile, hitem⟩

end Directory

/-- Keys that are names lead to the path of these names. -/
theorem foldl_follow_names {names : List (List Char)} (h : ∀ name ∈ names, FileTree.IsName name) :
    ((names.map String.ofList).map Step.directory).foldl Step.follow "" =
      String.ofList (Path.ofNames names) := by
  induction names using List.reverseRecOn with
  | nil => rfl
  | append_singleton names name ih =>
    have hnames : ∀ n ∈ names, FileTree.IsName n := fun n hn => h n (List.mem_append_left _ hn)
    rw [List.map_append, List.map_append, List.foldl_append, ih hnames,
      ← Path.below_ofNames hnames]
    simp [Step.follow, childPath]

namespace Document

/-- Every inserted file has a place. -/
theorem exists_place_insertAll (root : List Char) {inserts : List (List Char × FileEntry)}
    {entry : List Char × FileEntry} (hentry : entry ∈ inserts) :
    ∃ (id : Nat) (place : Place), ((new root).insertAll inserts).places[id]? = some place ∧
      place.item = .file entry.2 := by
  have hway := (isSome_at?_insertAll_new root inserts (wayTo entry.1)).2
    (.inr ⟨entry, hentry, List.prefix_refl _⟩)
  obtain ⟨found, hfound⟩ := Option.isSome_iff_exists.1 hway
  have hmem : entry.2 ∈ found.files := by
    rw [files_of_at?_insertAll hfound]
    exact List.mem_map.2 ⟨entry, List.mem_filter.2 ⟨hentry, by simp⟩, rfl⟩
  obtain ⟨position, hposition⟩ := List.mem_iff_getElem?.1 hmem
  obtain ⟨place, hplace, -, hitem⟩ := Document.exists_mem_places_iff.2
    (Directory.Holds.of_at? hfound (.file hposition))
  obtain ⟨id, hid⟩ := List.mem_iff_getElem?.1 hplace
  exact ⟨id, place, hid, hitem⟩

/-! ### Insertions at canonical paths -/

/-- Files inserted at different paths of names, each at the path that it records, and none below
another one. -/
structure CanonicalInserts (inserts : List (List Char × FileEntry)) : Prop where
  isBelowRoot : ∀ entry ∈ inserts, Path.IsBelowRoot entry.1
  path_eq : ∀ entry ∈ inserts, entry.2.path = String.ofList entry.1
  nodup : (inserts.map Prod.fst).Nodup
  not_above : ∀ entry ∈ inserts, ∀ other ∈ inserts, ¬ entry.1 ++ ['/'] <+: other.1

namespace CanonicalInserts

variable {inserts : List (List Char × FileEntry)} (h : CanonicalInserts inserts)

include h

/-- The files of one directory are inserted once each. -/
theorem nodup_placed (chain : List String) : (placed inserts chain).Nodup := by
  refine List.Nodup.of_map FileEntry.path ?_
  rw [placed, List.map_map]
  have hpaths : (inserts.map (FileEntry.path ∘ Prod.snd)).Nodup := by
    have heq : inserts.map (FileEntry.path ∘ Prod.snd) = (inserts.map Prod.fst).map String.ofList := by
      rw [List.map_map]
      exact List.map_congr_left fun entry hentry => h.path_eq entry hentry
    rw [heq]
    exact h.nodup.map fun _ _ => String.ofList_injective
  exact hpaths.sublist ((List.filter_sublist).map _)

/-- The directories are those whose names open the path of a file. -/
theorem exists_names_of_at? {root : List Char} {chain : List String} {found : Directory}
    (hfound : ((new root).insertAll inserts).root.at? chain = some found) :
    ∃ names, (∀ name ∈ names, FileTree.IsName name) ∧ chain = names.map String.ofList ∧
      (names = [] ∨ ∃ entry ∈ inserts, names <+: (entry.1.splitOn '/').dropLast) := by
  have hway := (isSome_at?_insertAll_new root inserts chain).1 (by rw [hfound, Option.isSome_some])
  rcases hway with rfl | ⟨entry, hentry, hprefix⟩
  · exact ⟨[], by simp, rfl, .inl rfl⟩
  · have hbelow := h.isBelowRoot entry hentry
    rw [wayTo_of_isBelowRoot hbelow] at hprefix
    obtain ⟨names, hnames, rfl⟩ := List.prefix_map_iff.1 hprefix
    refine ⟨names, fun name hname => ?_, rfl, .inr ⟨entry, hentry, hnames⟩⟩
    exact Path.isBelowRoot_iff.1 hbelow name (List.dropLast_subset _ (hnames.subset hname))

/-- A place is that of a directory, which has the path of its names, or that of an inserted file. -/
theorem place_cases {root : List Char} {place : Place}
    (hplace : place ∈ ((new root).insertAll inserts).places) :
    (∃ names, (∀ name ∈ names, FileTree.IsName name) ∧
      (names = [] ∨ ∃ entry ∈ inserts, names <+: (entry.1.splitOn '/').dropLast) ∧
      place.steps = (names.map String.ofList).map Step.directory ∧
      place.path = String.ofList (Path.ofNames names)) ∨
    ∃ entry ∈ inserts, ∃ position,
      place.steps = (wayTo entry.1).map Step.directory ++ [.file position] ∧
      (placed inserts (wayTo entry.1))[position]? = some entry.2 ∧
      place.path = String.ofList entry.1 := by
  have hholds := Document.exists_mem_places_iff.1 ⟨place, hplace, rfl, rfl⟩
  obtain ⟨chain, found, hfound, ⟨hsteps, hitem⟩ | ⟨position, file, hsteps, hfile, hitem⟩⟩ :=
    hholds.exists_at? (ordered_insertAll (ordered_new root) inserts)
  · obtain ⟨names, hnames, rfl, hway⟩ := h.exists_names_of_at? hfound
    obtain ⟨rest, hrest, hpath⟩ :=
      Directory.follow_of_mem_placesFrom 0 none "" [] _ hplace (by rw [hitem]; rfl)
    rw [List.nil_append, hsteps] at hrest
    rw [← hrest, foldl_follow_names hnames] at hpath
    exact .inl ⟨names, hnames, hway, hsteps, hpath⟩
  · rw [files_of_at?_insertAll hfound] at hfile
    obtain ⟨entry, hmem, rfl⟩ := List.mem_map.1 (List.mem_of_getElem? hfile)
    obtain ⟨hentry, hchain⟩ := List.mem_filter.1 hmem
    obtain rfl : wayTo entry.1 = chain := of_decide_eq_true hchain
    refine .inr ⟨entry, hentry, position, hsteps, hfile, ?_⟩
    rw [← h.path_eq entry hentry]
    exact (Document.mem_files_of_mem_places hplace hitem).2

/-- No directory has the path of a file. -/
theorem ofNames_ne {names : List (List Char)} (hne : names ≠ [])
    (hway : ∃ entry ∈ inserts, names <+: (entry.1.splitOn '/').dropLast)
    {entry : List Char × FileEntry} (hentry : entry ∈ inserts) : Path.ofNames names ≠ entry.1 := by
  intro heq
  obtain ⟨other, hother, more, hmore⟩ := hway
  refine h.not_above entry hentry other hother ?_
  -- the path of the other file has the names, further ones and its own name at the end
  obtain ⟨above, last, hsplit⟩ :=
    (List.eq_nil_or_concat' (other.1.splitOn '/')).resolve_left (List.splitOn_ne_nil '/' other.1)
  rw [hsplit, List.dropLast_concat] at hmore
  have hpath : other.1 = Path.ofNames names ++ '/' :: Path.ofNames (more ++ [last]) := by
    rw [← Path.ofNames_splitOn other.1, hsplit, ← hmore, List.append_assoc, Path.ofNames,
      intercalate_append hne (by simp)]
    rfl
  rw [hpath, heq]
  exact ⟨_, by rw [List.append_assoc, List.singleton_append]⟩

/-- Places with the same path are the same. -/
theorem steps_eq {root : List Char} {place other : Place}
    (hplace : place ∈ ((new root).insertAll inserts).places)
    (hother : other ∈ ((new root).insertAll inserts).places) (hpath : place.path = other.path)
    (hne : place.path ≠ "") : place.steps = other.steps := by
  rcases h.place_cases hplace with
    ⟨names, hnames, hway, hsteps, hp⟩ | ⟨entry, hentry, position, hsteps, hfile, hp⟩
  · have hnonempty : names ≠ [] := by
      rintro rfl
      exact hne hp
    rcases h.place_cases hother with
      ⟨others, hothers, -, hsteps', hp'⟩ | ⟨entry', hentry', -, -, -, hp'⟩
    · rw [hp, hp', String.ofList_inj, Path.ofNames_inj hnames hothers] at hpath
      rw [hsteps, hsteps', hpath]
    · rw [hp, hp', String.ofList_inj] at hpath
      exact absurd hpath (h.ofNames_ne hnonempty (hway.resolve_left hnonempty) hentry')
  · rcases h.place_cases hother with
      ⟨names, -, hway, -, hp'⟩ | ⟨entry', hentry', position', hsteps', hfile', hp'⟩
    · have hnonempty : names ≠ [] := by
        rintro rfl
        exact hne (hpath.trans hp')
      rw [hp, hp', String.ofList_inj] at hpath
      exact absurd hpath.symm (h.ofNames_ne hnonempty (hway.resolve_left hnonempty) hentry)
    · rw [hp, hp', String.ofList_inj] at hpath
      obtain rfl := List.inj_on_of_nodup_map h.nodup hentry hentry' hpath
      have hlt := (List.getElem?_eq_some_iff.1 hfile).1
      have hposition := (List.getElem?_inj hlt (h.nodup_placed _)).1 (hfile.trans hfile'.symm)
      rw [hsteps, hsteps', hposition]

theorem distinctPaths (root : List Char) :
    DistinctPaths ((new root).insertAll inserts).places := by
  rw [DistinctPaths, List.Nodup, List.pairwise_filter, List.pairwise_map]
  have hordered := Directory.pairwise_placesFrom 0 none "" [] _
    (ordered_insertAll (ordered_new root) inserts)
  refine hordered.imp_of_mem ?_
  intro place other hplace hother hbefore hne _ hpath
  rw [h.steps_eq hplace hother hpath (by simpa using hne)] at hbefore
  exact List.lex_irrefl Step.not_before_self _ hbefore

end CanonicalInserts

end Document

end SourceAtlas
