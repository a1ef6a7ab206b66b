import SourceAtlas.Proofs.Document.Folding

/-!
# Documents without empty directories

Pruning removes the directories below the root that hold no file at any depth, and nothing else. The
children of a directory are pruned first, and those that are then empty are left out
(`pruneAll_eq_filter`). A pruned directory is empty if there was no file in it or below it
(`isEmpty_prune`), so the directories that are left are known without pruning (`pruneAll_eq`), and
with them what stands at a chain of keys (`Ordered.at?_prune`).

A tree is filled if none of the directories below its root is empty. Pruning makes a tree filled and
leaves a filled tree as it is, and inserting files into an empty document fills every directory that
it makes.
-/

namespace SourceAtlas

/-- Elements from which nothing comes may be left out. -/
theorem flatMap_filter_of_eq_nil {α β : Type} {f : α → List β} {keeps : α → Bool} {l : List α}
    (h : ∀ a ∈ l, keeps a = false → f a = []) : (l.filter keeps).flatMap f = l.flatMap f := by
  induction l with
  | nil => rfl
  | cons a l ih =>
    have hrest := ih fun b hb => h b (List.mem_cons_of_mem a hb)
    by_cases ha : keeps a = true
    · rw [List.filter_cons_of_pos ha, List.flatMap_cons, List.flatMap_cons, hrest]
    · rw [List.filter_cons_of_neg ha, List.flatMap_cons,
        h a List.mem_cons_self (Bool.eq_false_iff.2 ha), List.nil_append, hrest]

namespace Directory

/-! ### What is left -/

/-- The children are pruned, and those that are then empty are left out. -/
theorem pruneAll_eq_filter (directories : List (String × Directory)) :
    pruneAll directories =
      (directories.map fun entry => (entry.1, entry.2.prune)).filter
        fun entry => !entry.2.isEmpty := by
  induction directories with
  | nil => rfl
  | cons entry rest ih =>
    obtain ⟨key, child⟩ := entry
    rw [pruneAll, List.map_cons, ih]
    by_cases hempty : child.prune.isEmpty = true
    · rw [if_pos hempty, List.filter_cons_of_neg (by simp [hempty])]
    · rw [if_neg hempty, List.filter_cons_of_pos (by simpa using hempty)]

theorem prune_eq (directory : Directory) :
    directory.prune = { directory with directories := pruneAll directory.directories } := by
  cases directory
  rw [prune]

/-- A pruned directory is empty if there was no file in it or below it. -/
theorem isEmpty_prune (directory : Directory) :
    directory.prune.isEmpty = directory.allFiles.isEmpty := by
  induction directory using induction_below with
  | step directory ih =>
    have hchildren : pruneAll directory.directories = [] ↔
        (directory.directories.flatMap fun entry => entry.2.allFiles) = [] := by
      rw [pruneAll_eq_filter, List.filter_eq_nil_iff, List.forall_mem_map, List.flatMap_eq_nil_iff]
      refine forall₂_congr fun entry hentry => ?_
      rw [ih entry.1 entry.2 hentry]
      simp
    rw [Bool.eq_iff_iff, prune_eq, isEmpty, allFiles_eq]
    simp [hchildren]

/-- The directories that are left are those that hold a file at some depth. -/
theorem pruneAll_eq (directories : List (String × Directory)) :
    pruneAll directories =
      (directories.filter fun entry => !entry.2.allFiles.isEmpty).map
        fun entry => (entry.1, entry.2.prune) := by
  rw [pruneAll_eq_filter, List.filter_map]
  simp only [Function.comp_def, isEmpty_prune]

/-- Pruning loses no file and keeps their order. -/
theorem allFiles_prune (directory : Directory) : directory.prune.allFiles = directory.allFiles := by
  induction directory using induction_below with
  | step directory ih =>
    have hchildren : ((pruneAll directory.directories).flatMap fun entry => entry.2.allFiles) =
        directory.directories.flatMap fun entry => entry.2.allFiles := by
      rw [pruneAll_eq, List.flatMap_map]
      calc ((directory.directories.filter fun entry => !entry.2.allFiles.isEmpty).flatMap
            fun entry => entry.2.prune.allFiles)
          = (directory.directories.filter fun entry => !entry.2.allFiles.isEmpty).flatMap
              fun entry => entry.2.allFiles :=
            List.flatMap_congr fun entry hentry => ih entry.1 entry.2 (List.mem_of_mem_filter hentry)
        _ = directory.directories.flatMap fun entry => entry.2.allFiles :=
            flatMap_filter_of_eq_nil fun entry _ hempty => by simpa using hempty
    rw [prune_eq, allFiles_eq, allFiles_eq directory, hchildren]

/-- Pruning again changes nothing. -/
theorem prune_prune (directory : Directory) : directory.prune.prune = directory.prune := by
  induction directory using induction_below with
  | step directory ih =>
    have hchildren : pruneAll (pruneAll directory.directories) = pruneAll directory.directories := by
      rw [pruneAll_eq (pruneAll _), pruneAll_eq, List.filter_map, List.map_map]
      simp only [Function.comp_def, allFiles_prune, List.filter_filter, Bool.and_self]
      refine List.map_congr_left fun entry hentry => ?_
      rw [ih entry.1 entry.2 (List.mem_of_mem_filter hentry)]
    rw [prune_eq, prune_eq directory, hchildren]

/-! ### What stands at a chain of keys -/

/-- Whether there is a file in a directory or below it. -/
def HasFile (directory : Directory) : Prop :=
  ∃ steps entry, directory.Holds steps (.file entry)

theorem hasFile_iff {directory : Directory} : directory.HasFile ↔ directory.allFiles ≠ [] := by
  constructor
  · rintro ⟨steps, entry, h⟩
    exact List.ne_nil_of_mem h.mem_allFiles
  · intro h
    induction directory using induction_below with
    | step directory ih =>
      rw [allFiles_eq, Ne, List.append_eq_nil_iff, not_and_or] at h
      rcases h with h | h
      · obtain ⟨entry, files, hfiles⟩ := List.exists_cons_of_ne_nil h
        exact ⟨[.file 0], entry, .file (by rw [hfiles]; rfl)⟩
      · obtain ⟨entry, hentry, hne⟩ : ∃ entry ∈ directory.directories, entry.2.allFiles ≠ [] := by
          simpa using h
        obtain ⟨steps, file, hholds⟩ := ih entry.1 entry.2 hentry hne
        exact ⟨_, file, .inside hentry hholds⟩

theorem allFiles_subset_of_at? {directory found : Directory} {chain : List String}
    (h : directory.at? chain = some found) : found.allFiles ⊆ directory.allFiles := by
  induction chain generalizing directory with
  | nil =>
    rw [at?_nil, Option.some.injEq] at h
    rw [h]
    exact List.Subset.refl _
  | cons key chain ih =>
    rw [at?_cons] at h
    obtain ⟨child, hchild, hfound⟩ := Option.bind_eq_some_iff.1 h
    intro file hfile
    rw [allFiles_eq]
    exact List.mem_append_right _ (List.mem_flatMap.2 ⟨_, mem_of_child? hchild, ih hfound hfile⟩)

/-- Under a key stands the pruned directory from before, if there was a file in it or below it. -/
theorem lookup_pruneAll {directories : List (String × Directory)}
    (h : (directories.map Prod.fst).Pairwise (· < ·)) (key : String) :
    (pruneAll directories).lookup key =
      ((directories.lookup key).filter fun child => !child.allFiles.isEmpty).map prune := by
  induction directories with
  | nil => rfl
  | cons entry rest ih =>
    obtain ⟨first, child⟩ := entry
    obtain ⟨hless, hrest⟩ := List.pairwise_cons.1 h
    rw [pruneAll, isEmpty_prune, List.lookup_cons]
    by_cases hkey : key = first
    · subst hkey
      by_cases hempty : child.allFiles = []
      · -- the key does not occur again
        rw [if_pos (by simp [hempty]), ih hrest, lookup_eq_none_of_lt hless]
        simp [hempty]
      · simp [hempty]
    · have hne : (key == first) = false := by simpa using hkey
      rw [hne]
      split
      · exact ih hrest
      · rw [List.lookup_cons, hne]
        exact ih hrest

theorem Ordered.child?_prune {directory : Directory} (h : directory.Ordered) (key : String) :
    directory.prune.child? key =
      ((directory.child? key).filter fun child => !child.allFiles.isEmpty).map prune := by
  obtain ⟨name, path, files, directories⟩ := directory
  rw [prune]
  exact lookup_pruneAll h.1 key

/-- Below the root stands the pruned directory from before, if there was a file in it or below it. -/
theorem Ordered.at?_prune {directory : Directory} (h : directory.Ordered) {chain : List String}
    (hchain : chain ≠ []) :
    directory.prune.at? chain =
      ((directory.at? chain).filter fun found => !found.allFiles.isEmpty).map prune := by
  induction chain generalizing directory with
  | nil => exact absurd rfl hchain
  | cons key chain ih =>
    rw [at?_cons, at?_cons, h.child?_prune]
    cases hchild : directory.child? key with
    | none => rfl
    | some child =>
      rw [Option.bind_some]
      by_cases hempty : child.allFiles = []
      · -- nothing below the removed directory holds a file either
        have hnone : (child.at? chain).filter (fun found => !found.allFiles.isEmpty) = none := by
          rw [Option.filter_eq_none_iff]
          intro found hfound
          have hsubset := allFiles_subset_of_at? hfound
          rw [hempty, List.subset_nil] at hsubset
          simp [hsubset]
        rw [hnone]
        simp [hempty]
      · have hkept : (some child).filter (fun found => !found.allFiles.isEmpty) = some child := by
          simp [hempty]
        rw [hkept, Option.map_some, Option.bind_some]
        cases chain with
        | nil => rw [at?_nil, at?_nil, hkept, Option.map_some]
        | cons next chain => exact ih (h.child? hchild) (List.cons_ne_nil next chain)

theorem Ordered.at?_prune_eq_some_iff {directory kept : Directory} (h : directory.Ordered)
    {chain : List String} (hchain : chain ≠ []) :
    directory.prune.at? chain = some kept ↔
      ∃ found, directory.at? chain = some found ∧ found.HasFile ∧ found.prune = kept := by
  rw [h.at?_prune hchain, Option.map_eq_some_iff]
  refine exists_congr fun found => ?_
  rw [Option.filter_eq_some_iff, hasFile_iff, and_assoc]
  simp

/-! ### Filled trees -/

/-- Whether no directory below the root of a tree is empty. -/
def Filled (directory : Directory) : Prop :=
  ∀ chain found, chain ≠ [] → directory.at? chain = some found → found.isEmpty = false

theorem lookup_of_mem {directories : List (String × Directory)} {key : String} {child : Directory}
    (hkeys : (directories.map Prod.fst).Pairwise (· < ·)) (h : (key, child) ∈ directories) :
    directories.lookup key = some child := by
  obtain ⟨before, after, rfl⟩ := List.append_of_mem h
  refine List.lookup_eq_some_iff.2 ⟨before, after, rfl, fun entry hentry => ?_⟩
  rw [List.map_append, List.pairwise_append] at hkeys
  have hlt : entry.1 < key := hkeys.2.2 _ (List.mem_map_of_mem hentry) _ (by simp)
  simpa using fun heq : key = entry.1 => String.lt_irrefl _ (heq ▸ hlt)

theorem Ordered.child?_of_mem {directory child : Directory} {key : String} (h : directory.Ordered)
    (hmem : (key, child) ∈ directory.directories) : directory.child? key = some child := by
  obtain ⟨name, path, files, directories⟩ := directory
  exact lookup_of_mem h.1 hmem

/-- Of a filled tree in order, every subdirectory holds something and is filled. -/
theorem Filled.of_mem {directory child : Directory} {key : String} (h : directory.Filled)
    (hordered : directory.Ordered) (hmem : (key, child) ∈ directory.directories) :
    child.isEmpty = false ∧ child.Filled := by
  have hchild := hordered.child?_of_mem hmem
  constructor
  · refine h [key] child (List.cons_ne_nil _ _) ?_
    rw [at?_cons, hchild, Option.bind_some, at?_nil]
  · intro chain found _ hfound
    refine h (key :: chain) found (List.cons_ne_nil _ _) ?_
    rw [at?_cons, hchild, Option.bind_some, hfound]

/-- Pruning makes a tree filled. -/
theorem filled_prune {directory : Directory} (h : directory.Ordered) : directory.prune.Filled := by
  intro chain kept hchain hkept
  obtain ⟨found, -, hfile, rfl⟩ := (h.at?_prune_eq_some_iff hchain).1 hkept
  rw [isEmpty_prune, List.isEmpty_eq_false_iff]
  exact hasFile_iff.1 hfile

/-- Pruning leaves a filled tree as it is. -/
theorem prune_eq_self {directory : Directory} (hordered : directory.Ordered)
    (hfilled : directory.Filled) : directory.prune = directory := by
  induction directory using induction_below with
  | step directory ih =>
    have hsame : ∀ entry ∈ directory.directories, entry.2.prune = entry.2 := by
      intro entry hentry
      have hchild := hordered.child? (hordered.child?_of_mem hentry)
      exact ih entry.1 entry.2 hentry hchild (hfilled.of_mem hordered hentry).2
    have hmap : directory.directories.map (fun entry => (entry.1, entry.2.prune)) =
        directory.directories := by
      refine (List.map_congr_left fun entry hentry => ?_).trans (List.map_id _)
      rw [hsame entry hentry, id_eq]
    have hchildren : pruneAll directory.directories = directory.directories := by
      rw [pruneAll_eq_filter, hmap, List.filter_eq_self]
      intro entry hentry
      rw [(hfilled.of_mem hordered hentry).1, Bool.not_false]
    rw [prune_eq, hchildren]
    cases directory
    rfl

end Directory

namespace Document

/-- A directory that insertions have made holds a file or lies on the way of one. -/
theorem filled_insertAll (root : List Char) (inserts : List (List Char × FileEntry)) :
    ((new root).insertAll inserts).root.Filled := by
  intro chain found hchain hfound
  have hway := (isSome_at?_insertAll_new root inserts chain).1 (by rw [hfound, Option.isSome_some])
  obtain ⟨entry, hentry, below, hbelow⟩ := hway.resolve_left hchain
  cases below with
  | nil =>
    -- The file was inserted here.
    rw [List.append_nil] at hbelow
    have hmem : entry.2 ∈ found.files := by
      rw [files_of_at?_insertAll hfound]
      exact List.mem_map.2 ⟨entry, List.mem_filter.2 ⟨hentry, by simp [hbelow]⟩, rfl⟩
    simp [Directory.isEmpty, List.ne_nil_of_mem hmem]
  | cons key below =>
    -- The way of the file leads on.
    have hnext := (isSome_at?_insertAll_new root inserts (chain ++ [key])).2
      (.inr ⟨entry, hentry, below, by simp [hbelow]⟩)
    rw [Directory.at?_append, hfound, Option.bind_some, Directory.at?_cons] at hnext
    obtain ⟨child, hchild⟩ := Option.isSome_iff_exists.1 (Option.isSome_of_isSome_bind hnext)
    have hmem := Directory.mem_of_child? hchild
    simp [Directory.isEmpty, List.ne_nil_of_mem hmem]

/-- Pruning changes nothing in a document that was made by insertions only. -/
theorem prune_insertAll (root : List Char) (inserts : List (List Char × FileEntry)) :
    ((new root).insertAll inserts).prune = (new root).insertAll inserts := by
  rw [prune, Directory.prune_eq_self (ordered_insertAll (ordered_new root) inserts)
    (filled_insertAll root inserts)]

/-- **Pruning removes exactly the directories without a file.** The directories of a document are kept
in order, each key once. Below the root those are left that have a file in them or below them; what is
left, the root included, keeps its name, its path and its files. No directory below the root is then
empty, the files are listed as before, and pruning again changes nothing. A document that was made by
insertions only is not changed at all. -/
theorem prune_exact {document : Document} (h : document.root.Ordered) :
    document.prune.root.Ordered ∧
      (∀ chain, chain ≠ [] → ((document.prune.root.at? chain).isSome = true ↔
        ∃ found, document.root.at? chain = some found ∧ found.HasFile)) ∧
      (∀ chain kept, document.prune.root.at? chain = some kept →
        ∃ found, document.root.at? chain = some found ∧
          kept.name = found.name ∧ kept.path = found.path ∧ kept.files = found.files) ∧
      (document.prune.root.name = document.root.name ∧
        document.prune.root.path = document.root.path ∧
        document.prune.root.files = document.root.files) ∧
      document.prune.root.Filled ∧ document.prune.files = document.files ∧
      document.prune.prune = document.prune ∧
      ∀ root inserts, ((new root).insertAll inserts).prune = (new root).insertAll inserts := by
  have hdata (directory : Directory) : directory.prune.name = directory.name ∧
      directory.prune.path = directory.path ∧ directory.prune.files = directory.files := by
    rw [Directory.prune_eq]
    exact ⟨rfl, rfl, rfl⟩
  refine ⟨Directory.ordered_prune _ h, ?_, ?_, hdata document.root, Directory.filled_prune h,
    Directory.allFiles_prune document.root, ?_, prune_insertAll⟩
  · intro chain hchain
    simp only [Option.isSome_iff_exists, prune, h.at?_prune_eq_some_iff hchain]
    exact ⟨fun ⟨_, found, hfound, hfile, _⟩ => ⟨found, hfound, hfile⟩,
      fun ⟨found, hfound, hfile⟩ => ⟨_, found, hfound, hfile, rfl⟩⟩
  · intro chain kept hkept
    by_cases hchain : chain = []
    · subst hchain
      obtain rfl := Option.some.inj hkept
      exact ⟨document.root, rfl, hdata document.root⟩
    · obtain ⟨found, hfound, -, rfl⟩ := (h.at?_prune_eq_some_iff hchain).1 hkept
      exact ⟨found, hfound, hdata found⟩
  · rw [prune, prune, Directory.prune_prune]

/-- A document with an empty directory, one that holds nothing but an empty directory, and one that
holds a file two levels down. -/
def emptyChains : Document where
  root :=
    { name := "webapp"
      path := some "/work/webapp"
      directories :=
        [("empty", { name := "empty" }),
          ("outer", { name := "outer", directories := [("inner", { name := "inner" })] }),
          ("src",
            { name := "src"
              directories :=
                [("old", { name := "old" }),
                  ("ui", { name := "ui", files := [{ name := "a.ts", path := "src/ui/a.ts" }] })] })] }

theorem prune_exact_emptyChains :
    emptyChains.root.Ordered ∧
      (emptyChains.root.at? ["outer", "inner"]).isSome = true ∧
      (emptyChains.prune.root.at? ["outer"]).isSome = false ∧
      (emptyChains.prune.root.at? ["src", "ui"]).isSome = true ∧
      emptyChains.prune.files = emptyChains.files := by
  have hordered : emptyChains.root.Ordered := by
    simp only [emptyChains, Directory.Ordered, Directory.OrderedAll, and_true]
    decide
  exact ⟨hordered, by decide, by decide, by decide, (prune_exact hordered).2.2.2.2.2.1⟩

end Document

end SourceAtlas
