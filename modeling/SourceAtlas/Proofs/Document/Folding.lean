import SourceAtlas.Proofs.Document.Order
import SourceAtlas.Proofs.Path.Names

/-!
# Files folded into a tree

`Directory.at?` finds the directory below a chain of keys. Inserting a file makes the directories on
its way that are missing and adds the file to the last of them; `Directory.shelf_updateAt` says so
for one insertion and `Document.shelf_insertAll` for a sequence of insertions. A tree in order is
determined by what stands at its chains of keys, so the order of insertions matters only within a
directory.
-/

namespace SourceAtlas

namespace Directory

/-! ### What stands at a chain of keys -/

/-- The subdirectory under a key. -/
def child? (directory : Directory) (key : String) : Option Directory :=
  directory.directories.lookup key

/-- The directory below a chain of keys. -/
def at? : Directory → List String → Option Directory
  | directory, [] => some directory
  | directory, key :: keys => (directory.child? key).bind fun child => child.at? keys

/-- A directory with more files after those that are there. -/
def addFiles (more : List FileEntry) (directory : Directory) : Directory :=
  { directory with files := directory.files ++ more }

@[simp] theorem addFiles_nil (directory : Directory) : addFiles [] directory = directory := by
  cases directory
  simp [addFiles]

/-- A directory without its subdirectories. -/
def alone (directory : Directory) : Directory := { directory with directories := [] }

/-- What stands at a chain of keys, apart from the subdirectories. -/
def view? (directory : Directory) (chain : List String) : Option Directory :=
  (directory.at? chain).map alone

/-- What stands at a chain of keys or would be made there: a directory named after its key. -/
def shelf (directory : Directory) (chain : List String) : Directory :=
  (directory.view? chain).getD { name := chain.getLastD "" }

@[simp] theorem at?_nil (directory : Directory) : directory.at? [] = some directory := by
  rw [at?]

theorem at?_cons (directory : Directory) (key : String) (keys : List String) :
    directory.at? (key :: keys) = (directory.child? key).bind fun child => child.at? keys := by
  rw [at?]

theorem at?_append (directory : Directory) (keys more : List String) :
    directory.at? (keys ++ more) = (directory.at? keys).bind fun found => found.at? more := by
  induction keys generalizing directory with
  | nil => rw [List.nil_append, at?_nil, Option.bind_some]
  | cons key keys ih =>
    rw [List.cons_append, at?_cons, at?_cons, Option.bind_assoc]
    simp only [ih]

@[simp] theorem view?_nil (directory : Directory) : directory.view? [] = some directory.alone := by
  rw [view?, at?_nil, Option.map_some]

theorem view?_cons (directory : Directory) (key : String) (keys : List String) :
    directory.view? (key :: keys) = (directory.child? key).bind fun child => child.view? keys := by
  simp only [view?, at?_cons, Option.map_bind, Function.comp_def]

@[simp] theorem shelf_nil (directory : Directory) : directory.shelf [] = directory.alone := by
  rw [shelf, view?_nil, Option.getD_some]

/-- Below a key stands what stands in the subdirectory, or in the one that would be made. -/
theorem shelf_cons (directory : Directory) (key : String) (keys : List String) :
    directory.shelf (key :: keys) =
      ((directory.child? key).getD { name := key }).shelf keys := by
  rw [shelf, view?_cons, List.getLastD_cons]
  cases keys with
  | nil =>
    cases directory.child? key with
    | none => rfl
    | some child => rfl
  | cons next keys =>
    rw [shelf, List.getLastD_cons, List.getLastD_cons]
    cases directory.child? key with
    | none => rfl
    | some child => rfl

theorem shelf_of_at? {directory found : Directory} {chain : List String}
    (h : directory.at? chain = some found) : directory.shelf chain = found.alone := by
  rw [shelf, view?, h, Option.map_some, Option.getD_some]

/-- A directory that is not there yet would be empty. -/
theorem shelf_of_at?_eq_none {directory : Directory} {chain : List String}
    (h : directory.at? chain = none) :
    directory.shelf chain = { name := chain.getLastD "" } := by
  rw [shelf, view?, h, Option.map_none, Option.getD_none]

theorem view?_eq (directory : Directory) (chain : List String) :
    directory.view? chain =
      if (directory.at? chain).isSome then some (directory.shelf chain) else none := by
  cases h : directory.at? chain with
  | none => simp [view?, h]
  | some found => simp [view?, h, shelf_of_at? h]

/-! ### Trees with the same shelves -/

theorem mem_of_child? {directory child : Directory} {key : String}
    (h : directory.child? key = some child) : (key, child) ∈ directory.directories := by
  obtain ⟨before, after, heq, -⟩ := List.lookup_eq_some_iff.1 h
  simp [heq]

/-- A key that comes before all others is not among them. -/
theorem lookup_eq_none_of_lt {directories : List (String × Directory)} {key : String}
    (h : ∀ other ∈ directories.map Prod.fst, key < other) : directories.lookup key = none := by
  refine List.lookup_eq_none_iff.2 fun entry hentry => ?_
  have hlt := h entry.1 (List.mem_map_of_mem hentry)
  simpa using fun heq : key = entry.1 => String.lt_irrefl _ (heq ▸ hlt)

theorem mem_keys_of_lookup {directories : List (String × Directory)} {key : String}
    (h : (directories.lookup key).isSome = true) : key ∈ directories.map Prod.fst := by
  obtain ⟨entry, hentry, heq⟩ := List.lookup_isSome_iff.1 h
  exact List.mem_map.2 ⟨entry, hentry, (beq_iff_eq.1 heq).symm⟩

mutual

/-- Trees in order with the same at every chain of keys are equal. -/
theorem eq_of_view? : (directory other : Directory) → directory.Ordered → other.Ordered →
    (∀ chain, directory.view? chain = other.view? chain) → directory = other
  | ⟨name, path, files, directories⟩, ⟨name', path', files', directories'⟩, h, h', hview => by
    have hroot := hview []
    rw [view?_nil, view?_nil, Option.some.injEq, alone, alone] at hroot
    cases hroot
    have hbelow : directories = directories' := by
      refine eq_of_lookup_view? directories directories' h.1 h.2 h'.1 h'.2 fun key chain => ?_
      have hkey := hview (key :: chain)
      rwa [view?_cons, view?_cons] at hkey
    rw [hbelow]

/-- Subdirectories in order with the same at every chain of keys are equal. -/
theorem eq_of_lookup_view? : (directories others : List (String × Directory)) →
    (directories.map Prod.fst).Pairwise (· < ·) → OrderedAll directories →
    (others.map Prod.fst).Pairwise (· < ·) → OrderedAll others →
    (∀ key chain, ((directories.lookup key).bind fun child => child.view? chain) =
      (others.lookup key).bind fun child => child.view? chain) → directories = others
  | [], [], _, _, _, _, _ => rfl
  | [], (key, child) :: others, _, _, _, _, hview => by
    have hfirst := hview key []
    simp at hfirst
  | (key, child) :: rest, [], _, _, _, _, hview => by
    have hfirst := hview key []
    simp at hfirst
  | (key, child) :: rest, (key', child') :: rest', hkeys, hordered, hkeys', hordered', hview => by
    obtain ⟨hless, hrestKeys⟩ := List.pairwise_cons.1 hkeys
    obtain ⟨hless', hrestKeys'⟩ := List.pairwise_cons.1 hkeys'
    -- Both lists start with the least key of all.
    have hkey : key = key' := by
      have hmem : key ∈ ((key', child') :: rest').map Prod.fst := by
        refine mem_keys_of_lookup ?_
        have hfirst := congrArg Option.isSome (hview key [])
        simpa [Option.isSome_bind] using hfirst.symm
      have hmem' : key' ∈ ((key, child) :: rest).map Prod.fst := by
        refine mem_keys_of_lookup ?_
        have hfirst := congrArg Option.isSome (hview key' [])
        simpa [Option.isSome_bind] using hfirst
      rw [List.map_cons, List.mem_cons] at hmem hmem'
      rcases hmem with heq | hmem
      · exact heq
      · rcases hmem' with heq | hmem'
        · exact heq.symm
        · exact absurd (String.lt_trans (hless' key hmem) (hless key' hmem')) (String.lt_irrefl _)
    subst hkey
    have hchild : child = child' := by
      refine eq_of_view? child child' hordered.1 hordered'.1 fun chain => ?_
      simpa using hview key chain
    have hrest : rest = rest' := by
      refine eq_of_lookup_view? rest rest' hrestKeys hordered.2 hrestKeys' hordered'.2
        fun other chain => ?_
      by_cases hother : other = key
      · rw [hother, lookup_eq_none_of_lt hless, lookup_eq_none_of_lt hless']
      · have hne : (other == key) = false := by simpa using hother
        simpa [List.lookup_cons, hne] using hview other chain
    rw [hchild, hrest]

end

/-! ### One insertion -/

/-- A change at one key shows at this key only. -/
theorem lookup_alter {directories : List (String × Directory)}
    (h : (directories.map Prod.fst).Pairwise (· < ·)) (key other : String)
    (change : Option Directory → Directory) :
    (alter key change directories).lookup other =
      if other = key then some (change (directories.lookup key)) else directories.lookup other := by
  induction directories with
  | nil =>
    by_cases hother : other = key
    · simp [alter, hother]
    · have hne : (other == key) = false := by simpa using hother
      simp [alter, hother, List.lookup_cons, hne]
  | cons entry rest ih =>
    obtain ⟨k, child⟩ := entry
    obtain ⟨hless, hrest⟩ := List.pairwise_cons.1 h
    rw [alter]
    split
    next hlt =>
      have hnone : ((k, child) :: rest).lookup key = none := by
        refine lookup_eq_none_of_lt fun other hother => ?_
        rcases List.mem_cons.1 hother with rfl | hother
        · exact hlt
        · exact String.lt_trans hlt (hless other hother)
      rw [hnone, List.lookup_cons]
      by_cases hother : other = key
      · simp [hother]
      · have hne : (other == key) = false := by simpa using hother
        rw [hne, if_neg hother]
    next hlt =>
      split
      next heq =>
        subst heq
        by_cases hother : other = key
        · simp [hother]
        · have hne : (other == key) = false := by simpa using hother
          simp [List.lookup_cons, hne, hother]
      next hne =>
        have hkey : (key == k) = false := by simpa using hne
        rw [List.lookup_cons, ih hrest, List.lookup_cons, List.lookup_cons, hkey]
        by_cases hother : other = k
        · have hdiffers : ¬ k = key := fun heq => hne heq.symm
          simp [hother, hdiffers]
        · have hne' : (other == k) = false := by simpa using hother
          rw [hne']

theorem Ordered.child? {directory child : Directory} {key : String} (h : directory.Ordered)
    (hchild : directory.child? key = some child) : child.Ordered := by
  obtain ⟨name, path, files, directories⟩ := directory
  exact orderedAll_iff.1 h.2 key child (mem_of_child? hchild)

theorem child?_updateAt_cons {directory : Directory} (h : directory.Ordered)
    (change : Directory → Directory) (name : String) (names : List String) (key : String) :
    (updateAt change (name :: names) directory).child? key =
      if key = name then
        some (updateAt change names ((directory.child? name).getD { name := name }))
      else directory.child? key := by
  obtain ⟨title, path, files, directories⟩ := directory
  rw [updateAt, child?, lookup_alter h.1]
  rfl

/-- The subdirectory under a key, or the one that is made for it, is in order. -/
theorem Ordered.getD_child? {directory : Directory} (h : directory.Ordered) (key : String) :
    ((directory.child? key).getD { name := key }).Ordered := by
  cases hchild : directory.child? key with
  | none => exact ⟨List.Pairwise.nil, trivial⟩
  | some child => exact h.child? hchild

/-- After an insertion there are the directories from before and those on the way of the file. -/
theorem isSome_at?_updateAt (file : FileEntry) (names chain : List String) {directory : Directory}
    (h : directory.Ordered) :
    ((updateAt (addFile file) names directory).at? chain).isSome = true ↔
      chain <+: names ∨ (directory.at? chain).isSome = true := by
  induction names generalizing directory chain with
  | nil =>
    cases chain with
    | nil => simp
    | cons key chain => simp [updateAt, addFile, at?_cons, child?]
  | cons name names ih =>
    cases chain with
    | nil => simp
    | cons key chain =>
      rw [at?_cons, child?_updateAt_cons h, List.cons_prefix_cons, at?_cons]
      by_cases hkey : key = name
      · subst hkey
        rw [if_pos rfl, Option.bind_some, ih chain (h.getD_child? key)]
        cases directory.child? key with
        | some child => simp
        | none =>
          cases chain with
          | nil => simp
          | cons next chain => simp [at?_cons, child?]
      · simp [hkey]

/-- An insertion adds the file to the last directory on its way and changes no other one. -/
theorem shelf_updateAt (file : FileEntry) (names chain : List String) {directory : Directory}
    (h : directory.Ordered) :
    (updateAt (addFile file) names directory).shelf chain =
      if chain = names then addFile file (directory.shelf chain) else directory.shelf chain := by
  induction names generalizing directory chain with
  | nil =>
    cases chain with
    | nil => simp [updateAt, addFile, alone]
    | cons key chain => simp [updateAt, addFile, shelf_cons, child?]
  | cons name names ih =>
    cases chain with
    | nil => simp [updateAt, alone]
    | cons key chain =>
      rw [shelf_cons, child?_updateAt_cons h, shelf_cons]
      by_cases hkey : key = name
      · subst hkey
        rw [if_pos rfl, Option.getD_some, ih chain (h.getD_child? key)]
        simp
      · simp [hkey]

/-- A change at one key that adds a file there adds it to all files. -/
theorem perm_flatMap_alter {file : FileEntry} {change : Option Directory → Directory}
    (hchange : ∀ child?, (change child?).allFiles.Perm
      (file :: (child?.map Directory.allFiles).getD [])) (key : String)
    (directories : List (String × Directory)) :
    ((alter key change directories).flatMap fun entry => entry.2.allFiles).Perm
      (file :: directories.flatMap fun entry => entry.2.allFiles) := by
  induction directories with
  | nil => simpa [alter] using hchange none
  | cons entry rest ih =>
    obtain ⟨k, child⟩ := entry
    rw [alter]
    split
    · rw [List.flatMap_cons]
      exact (hchange none).append_right _
    · split
      · rw [List.flatMap_cons, List.flatMap_cons]
        exact (hchange (some child)).append_right _
      · rw [List.flatMap_cons, List.flatMap_cons]
        exact (ih.append_left _).trans List.perm_middle

/-- An insertion adds one file. -/
theorem perm_allFiles_updateAt (file : FileEntry) (names : List String) (directory : Directory) :
    (updateAt (addFile file) names directory).allFiles.Perm (file :: directory.allFiles) := by
  induction names generalizing directory with
  | nil =>
    rw [updateAt, allFiles_eq, allFiles_eq directory, addFile, List.append_assoc]
    exact List.perm_middle
  | cons name names ih =>
    rw [updateAt, allFiles_eq, allFiles_eq directory]
    refine ((perm_flatMap_alter (fun child? => ?_) name _).append_left _).trans List.perm_middle
    cases child? with
    | none => exact ih { name := name }
    | some child => exact ih child

end Directory

namespace Document

/-- The keys of the directories on the way to a relative path: its segments that are not empty, without
the last one. -/
def wayTo (relative : List Char) : List String :=
  ((relative.splitOn '/').filter (· ≠ [])).dropLast.map String.ofList

/-- Insertion goes the way to the path. -/
theorem insert_eq (document : Document) (relative : List Char) (file : FileEntry) :
    document.insert relative file =
      { document with root := document.root.updateAt (Directory.addFile file) (wayTo relative) } := by
  have hkeep : ((relative.splitOn '/').filter fun segment => !segment.isEmpty) =
      (relative.splitOn '/').filter (· ≠ []) := by
    refine List.filter_congr fun segment _ => ?_
    cases segment <;> rfl
  rw [insert, directoryNames, hkeep, wayTo]

/-- The way to a path of names leads through the directories that the path names. -/
theorem wayTo_of_isBelowRoot {path : List Char} (h : Path.IsBelowRoot path) :
    wayTo path = (path.splitOn '/').dropLast.map String.ofList := by
  have hkeep : (path.splitOn '/').filter (· ≠ []) = path.splitOn '/' := by
    rw [List.filter_eq_self]
    intro name hname
    exact decide_eq_true (Path.isBelowRoot_iff.1 h name hname).1
  rw [wayTo, hkeep]

/-! ### A sequence of insertions -/

/-- A document with files inserted one after the other, each with its relative path. -/
def insertAll (document : Document) (inserts : List (List Char × FileEntry)) : Document :=
  inserts.foldl (fun document entry => document.insert entry.1 entry.2) document

/-- The files that are inserted into the directory at a chain of keys, in the order of the
insertions. -/
def placed (inserts : List (List Char × FileEntry)) (chain : List String) : List FileEntry :=
  (inserts.filter fun entry => wayTo entry.1 = chain).map Prod.snd

theorem insertAll_concat (document : Document) (inserts : List (List Char × FileEntry))
    (entry : List Char × FileEntry) :
    document.insertAll (inserts ++ [entry]) =
      (document.insertAll inserts).insert entry.1 entry.2 := by
  rw [insertAll, List.foldl_concat]
  rfl

theorem placed_concat (inserts : List (List Char × FileEntry)) (entry : List Char × FileEntry)
    (chain : List String) :
    placed (inserts ++ [entry]) chain =
      if chain = wayTo entry.1 then placed inserts chain ++ [entry.2]
      else placed inserts chain := by
  rw [placed, List.filter_append, List.map_append]
  by_cases h : chain = wayTo entry.1
  · simp [h, placed]
  · simp [h, placed, Ne.symm h]

theorem ordered_insertAll {document : Document} (h : document.root.Ordered)
    (inserts : List (List Char × FileEntry)) : (document.insertAll inserts).root.Ordered := by
  induction inserts using List.reverseRecOn with
  | nil => exact h
  | append_singleton inserts entry ih =>
    rw [insertAll_concat, insert_eq]
    exact Directory.ordered_updateAt (fun _ => Directory.ordered_addFile entry.2) _ ih

theorem isSome_at?_insertAll {document : Document} (h : document.root.Ordered)
    (inserts : List (List Char × FileEntry)) (chain : List String) :
    ((document.insertAll inserts).root.at? chain).isSome = true ↔
      (document.root.at? chain).isSome = true ∨
        ∃ entry ∈ inserts, chain <+: wayTo entry.1 := by
  induction inserts using List.reverseRecOn with
  | nil => simp [insertAll]
  | append_singleton inserts entry ih =>
    rw [insertAll_concat, insert_eq, Directory.isSome_at?_updateAt _ _ _ (ordered_insertAll h inserts),
      ih]
    simp only [List.mem_append, List.mem_singleton, or_and_right, exists_or, exists_eq_left]
    exact or_rotate

/-- Every directory gets the files that are inserted into it, and no other change. -/
theorem shelf_insertAll {document : Document} (h : document.root.Ordered)
    (inserts : List (List Char × FileEntry)) (chain : List String) :
    (document.insertAll inserts).root.shelf chain =
      Directory.addFiles (placed inserts chain) (document.root.shelf chain) := by
  induction inserts using List.reverseRecOn with
  | nil => simp [insertAll, placed]
  | append_singleton inserts entry ih =>
    rw [insertAll_concat, insert_eq, Directory.shelf_updateAt _ _ _ (ordered_insertAll h inserts), ih,
      placed_concat]
    by_cases hchain : chain = wayTo entry.1
    · simp [hchain, Directory.addFile, Directory.addFiles]
    · simp [hchain]

theorem perm_files_insertAll (document : Document) (inserts : List (List Char × FileEntry)) :
    (document.insertAll inserts).files.Perm (inserts.map Prod.snd ++ document.files) := by
  induction inserts using List.reverseRecOn with
  | nil => exact .refl _
  | append_singleton inserts entry ih =>
    rw [insertAll_concat, List.map_append, List.append_assoc]
    refine (Directory.perm_allFiles_updateAt entry.2 _ _).trans ?_
    exact (ih.cons entry.2).trans List.perm_middle.symm

/-- Inserts with the same files for every directory lead to the same directories. -/
theorem exists_prefix_of_placed {inserts others : List (List Char × FileEntry)}
    (h : ∀ chain, placed inserts chain = placed others chain) {chain : List String}
    (hchain : ∃ entry ∈ inserts, chain <+: wayTo entry.1) :
    ∃ entry ∈ others, chain <+: wayTo entry.1 := by
  obtain ⟨entry, hentry, hprefix⟩ := hchain
  have hmem : entry.2 ∈ placed inserts (wayTo entry.1) :=
    List.mem_map.2 ⟨entry, List.mem_filter.2 ⟨hentry, by simp⟩, rfl⟩
  rw [h] at hmem
  obtain ⟨other, hother, -⟩ := List.mem_map.1 hmem
  obtain ⟨hother, hnames⟩ := List.mem_filter.1 hother
  exact ⟨other, hother, by rwa [of_decide_eq_true hnames]⟩

/-- The order of insertions matters only within each directory. -/
theorem insertAll_congr {document : Document} (hordered : document.root.Ordered)
    {inserts others : List (List Char × FileEntry)}
    (h : ∀ chain, placed inserts chain = placed others chain) :
    document.insertAll inserts = document.insertAll others := by
  have hroot : (document.insertAll inserts).root = (document.insertAll others).root := by
    refine Directory.eq_of_view? _ _ (ordered_insertAll hordered inserts)
      (ordered_insertAll hordered others) fun chain => ?_
    have hsome : ((document.insertAll inserts).root.at? chain).isSome =
        ((document.insertAll others).root.at? chain).isSome := by
      rw [Bool.eq_iff_iff, isSome_at?_insertAll hordered, isSome_at?_insertAll hordered]
      exact or_congr_right ⟨exists_prefix_of_placed h,
        exists_prefix_of_placed fun chain => (h chain).symm⟩
    rw [Directory.view?_eq, Directory.view?_eq, hsome, shelf_insertAll hordered,
      shelf_insertAll hordered, h]
  show (⟨(document.insertAll inserts).root⟩ : Document) = _
  rw [hroot]

theorem ordered_new (root : List Char) : (new root).root.Ordered := ⟨List.Pairwise.nil, trivial⟩

theorem isSome_at?_new (root : List Char) (chain : List String) :
    ((new root).root.at? chain).isSome = true ↔ chain = [] := by
  cases chain with
  | nil => simp
  | cons key chain => simp [Directory.at?_cons, Directory.child?, new]

theorem files_new (root : List Char) : (new root).files = [] := by
  rw [files, Directory.allFiles_eq]
  rfl

/-- Below the root of an empty document a directory would be made with the name of its key. -/
theorem shelf_new (root : List Char) (chain : List String) :
    (new root).root.shelf chain =
      if chain = [] then (new root).root else { name := chain.getLastD "" } := by
  split
  next h =>
    subst h
    rfl
  next h =>
    refine Directory.shelf_of_at?_eq_none ?_
    rw [← Option.not_isSome_iff_eq_none, isSome_at?_new]
    exact h

theorem isSome_at?_insertAll_new (root : List Char) (inserts : List (List Char × FileEntry))
    (chain : List String) :
    (((new root).insertAll inserts).root.at? chain).isSome = true ↔
      chain = [] ∨ ∃ entry ∈ inserts, chain <+: wayTo entry.1 := by
  rw [isSome_at?_insertAll (ordered_new root), isSome_at?_new]

/-- A directory of a document made by insertions holds the files inserted into it. -/
theorem files_of_at?_insertAll {root : List Char} {inserts : List (List Char × FileEntry)}
    {chain : List String} {directory : Directory}
    (h : ((new root).insertAll inserts).root.at? chain = some directory) :
    directory.files = placed inserts chain := by
  have hshelf := shelf_insertAll (ordered_new root) inserts chain
  rw [Directory.shelf_of_at? h, shelf_new] at hshelf
  have hfiles := congrArg Directory.files hshelf
  split at hfiles <;> exact hfiles

/-- A directory below the root is named after its key and has no path. -/
theorem name_of_at?_insertAll {root : List Char} {inserts : List (List Char × FileEntry)}
    {above : List String} {key : String} {directory : Directory}
    (h : ((new root).insertAll inserts).root.at? (above ++ [key]) = some directory) :
    directory.name = key ∧ directory.path = none := by
  have hshelf := shelf_insertAll (ordered_new root) inserts (above ++ [key])
  rw [Directory.shelf_of_at? h, shelf_new, if_neg (by simp), List.getLastD_concat] at hshelf
  exact ⟨congrArg Directory.name hshelf, congrArg Directory.path hshelf⟩

theorem perm_files_insertAll_new (root : List Char) (inserts : List (List Char × FileEntry)) :
    ((new root).insertAll inserts).files.Perm (inserts.map Prod.snd) := by
  have hperm := perm_files_insertAll (new root) inserts
  rwa [files_new, List.append_nil] at hperm

/-- What inserting files into an empty document gives: exactly the directories on their ways, in
each the files inserted into it in the order of the insertions, every directory below the root with
its key as its name and without a path, and the root as it was. So all files are there once for each
insertion, and insertions that agree within each directory give equal documents. -/
theorem insertAll_new (root : List Char) (inserts : List (List Char × FileEntry)) :
    let document := (new root).insertAll inserts
    document.root.Ordered ∧
      (∀ chain, (document.root.at? chain).isSome = true ↔
        chain = [] ∨ ∃ entry ∈ inserts, chain <+: wayTo entry.1) ∧
      (∀ chain directory, document.root.at? chain = some directory →
        directory.files = placed inserts chain) ∧
      (∀ above key directory, document.root.at? (above ++ [key]) = some directory →
        directory.name = key ∧ directory.path = none) ∧
      document.root.name = (new root).root.name ∧ document.root.path = (new root).root.path ∧
      document.files.Perm (inserts.map Prod.snd) ∧
      ∀ others, (∀ chain, placed others chain = placed inserts chain) →
        (new root).insertAll others = document := by
  intro document
  have hroot := shelf_insertAll (ordered_new root) inserts []
  have hname := congrArg Directory.name hroot
  have hpath := congrArg Directory.path hroot
  refine ⟨ordered_insertAll (ordered_new root) inserts, isSome_at?_insertAll_new root inserts, ?_, ?_,
    hname, hpath, perm_files_insertAll_new root inserts, ?_⟩
  · intro chain directory h
    exact files_of_at?_insertAll h
  · intro above key directory h
    exact name_of_at?_insertAll h
  · intro others h
    exact insertAll_congr (ordered_new root) h

end Document

end SourceAtlas
