import Mathlib.Tactic
import SourceAtlas.Graph.Resolution

/-!
# The places of a document

`Document.places` lists the directories and files of a document in the order in which they become
nodes of its graph: a directory, its subdirectories with all that is below them, then its files. A
place has a number, which is its position in the list. `Document.imports` lists the imports of the
files in the same order.
-/

namespace SourceAtlas

open Resolution

/-- A step from a directory to something that it holds. -/
inductive Step where
  /-- To the subdirectory under a key. -/
  | directory (key : String)
  /-- To the file at a position in the list of files. -/
  | file (position : Nat)
deriving Repr, DecidableEq, Inhabited

/-- What a node of a graph stands for. -/
inductive TreeItem where
  | directory (name : String)
  | file (entry : FileEntry)
deriving Repr, DecidableEq, Inhabited

namespace TreeItem

/-- Whether an item is a directory. -/
def isDirectory : TreeItem → Bool
  | directory _ => true
  | file _ => false

/-- The node that shows an item. -/
def node (id depth : Nat) : TreeItem → GraphNode
  | directory name => { id, name, isDirectory := true, depth }
  | file entry =>
    { id, name := entry.name, isDirectory := false, depth, description := entry.description
      functions := if entry.functions.isEmpty then none else some entry.functions.length }

@[simp] theorem node_id (id depth : Nat) (item : TreeItem) : (item.node id depth).id = id := by
  cases item <;> rfl

@[simp] theorem node_depth (id depth : Nat) (item : TreeItem) :
    (item.node id depth).depth = depth := by
  cases item <;> rfl

@[simp] theorem node_isDirectory (id depth : Nat) (item : TreeItem) :
    (item.node id depth).isDirectory = item.isDirectory := by
  cases item <;> rfl

end TreeItem

/-- An item of a tree and where it stands. -/
structure Place where
  /-- The steps that lead to it from the root. -/
  steps : List Step
  /-- The path that is recorded for it. -/
  path : String
  /-- The number of the directory that holds it. -/
  parent : Option Nat
  item : TreeItem
deriving Repr, DecidableEq, Inhabited

/-- The files of a directory with a number. -/
def Directory.placesOfFiles (parent : Nat) (steps : List Step) (files : List FileEntry) :
    List Place :=
  files.mapIdx fun position file =>
    { steps := steps ++ [.file position], path := file.path, parent := some parent
      item := .file file }

theorem Directory.mem_placesOfFiles {parent : Nat} {steps : List Step} {files : List FileEntry}
    {place : Place} :
    place ∈ placesOfFiles parent steps files ↔
      ∃ position file, files[position]? = some file ∧
        place = { steps := steps ++ [.file position], path := file.path, parent := some parent
                  item := .file file } := by
  simp only [placesOfFiles, List.mem_iff_getElem?, List.getElem?_mapIdx, Option.map_eq_some_iff,
    eq_comm (a := place)]

mutual

/-- A directory and all that is below it, numbered from a first number on: itself, its
subdirectories, then its files. -/
def Directory.placesFrom (first : Nat) (parent : Option Nat) (path : String) (steps : List Step) :
    Directory → List Place
  | ⟨name, _, files, directories⟩ =>
    { steps, path, parent, item := .directory name } ::
      (placesOfAll (first + 1) first path steps directories ++ placesOfFiles first steps files)

/-- Subdirectories and all that is below them. -/
def Directory.placesOfAll (first parent : Nat) (path : String) (steps : List Step) :
    List (String × Directory) → List Place
  | [] => []
  | (key, child) :: rest =>
    let places :=
      child.placesFrom first (some parent) (childPath path key) (steps ++ [.directory key])
    places ++ placesOfAll (first + places.length) parent path steps rest

end

theorem Directory.placesFrom_eq (first : Nat) (parent : Option Nat) (path : String)
    (steps : List Step) (directory : Directory) :
    directory.placesFrom first parent path steps =
      { steps, path, parent, item := .directory directory.name } ::
        (placesOfAll (first + 1) first path steps directory.directories ++
          placesOfFiles first steps directory.files) := by
  cases directory
  rfl

/-- The directories and files of a document in the order of the traversal. -/
def Document.places (document : Document) : List Place := document.root.placesFrom 0 none "" []

/-- An import of a document: the number of the importing file, its path and what it names. -/
structure ImportEntry where
  source : Nat
  importer : String
  specifier : String
deriving Repr, DecidableEq, Inhabited

/-- The imports of an item with a number. -/
def TreeItem.imports (id : Nat) : TreeItem → List ImportEntry
  | directory _ => []
  | file entry => entry.internalImports.map fun specifier => ⟨id, entry.path, specifier⟩

/-- The imports of a document: file by file in the order of the traversal, and in the order in
which a file lists them. -/
def Document.imports (document : Document) : List ImportEntry :=
  document.places.zipIdx.flatMap fun (place, id) => place.item.imports id

/-! ### What a directory holds -/

/-- What a directory holds, each item at the steps that lead to it: itself, its files, and what its
subdirectories hold. -/
inductive Directory.Holds : Directory → List Step → TreeItem → Prop
  | self (directory : Directory) : Holds directory [] (.directory directory.name)
  | file {directory : Directory} {position : Nat} {entry : FileEntry}
      (h : directory.files[position]? = some entry) :
      Holds directory [.file position] (.file entry)
  | inside {directory child : Directory} {key : String} {steps : List Step} {item : TreeItem}
      (hkey : (key, child) ∈ directory.directories) (h : Holds child steps item) :
      Holds directory (.directory key :: steps) item

namespace Directory

mutual

/-- Every place of a directory is that of something it holds. -/
theorem holds_of_mem_placesFrom (first : Nat) (parent : Option Nat) (path : String)
    (steps : List Step) : (directory : Directory) → {place : Place} →
    place ∈ directory.placesFrom first parent path steps →
      ∃ rest, place.steps = steps ++ rest ∧ directory.Holds rest place.item
  | ⟨name, root, files, directories⟩, place, h => by
    simp only [placesFrom, List.mem_cons, List.mem_append, mem_placesOfFiles] at h
    rcases h with rfl | h | ⟨position, file, hfile, rfl⟩
    · exact ⟨[], by simp, .self _⟩
    · obtain ⟨key, child, rest, hkey, hsteps, hholds⟩ :=
        holds_of_mem_placesOfAll (first + 1) first path steps directories h
      exact ⟨_, hsteps, .inside hkey hholds⟩
    · exact ⟨[.file position], rfl, .file hfile⟩

/-- Every place of subdirectories is that of something that one of them holds. -/
theorem holds_of_mem_placesOfAll (first parent : Nat) (path : String) (steps : List Step) :
    (directories : List (String × Directory)) → {place : Place} →
    place ∈ placesOfAll first parent path steps directories →
      ∃ key child rest, (key, child) ∈ directories ∧
        place.steps = steps ++ .directory key :: rest ∧ child.Holds rest place.item
  | [], _, h => by simp [placesOfAll] at h
  | (key, child) :: others, place, h => by
    simp only [placesOfAll, List.mem_append] at h
    rcases h with h | h
    · obtain ⟨rest, hsteps, hholds⟩ := holds_of_mem_placesFrom _ _ _ _ child h
      exact ⟨key, child, rest, List.mem_cons_self, by simpa using hsteps, hholds⟩
    · obtain ⟨key', child', rest, hkey, hsteps, hholds⟩ :=
        holds_of_mem_placesOfAll _ _ _ _ others h
      exact ⟨key', child', rest, List.mem_cons_of_mem _ hkey, hsteps, hholds⟩

end

/-- The places of a subdirectory are among those of all. -/
theorem placesFrom_subset_placesOfAll {key : String} {child : Directory} (parent : Nat)
    (path : String) (steps : List Step) {directories : List (String × Directory)}
    (h : (key, child) ∈ directories) (first : Nat) :
    ∃ start, child.placesFrom start (some parent) (Resolution.childPath path key)
      (steps ++ [.directory key]) ⊆ placesOfAll first parent path steps directories := by
  induction directories generalizing first with
  | nil => simp at h
  | cons entry others ih =>
    rcases List.mem_cons.1 h with rfl | h
    · exact ⟨first, by simp [placesOfAll]⟩
    · obtain ⟨start, hstart⟩ := ih h (first + (entry.2.placesFrom first (some parent)
        (Resolution.childPath path entry.1) (steps ++ [.directory entry.1])).length)
      exact ⟨start, List.subset_append_of_subset_right _ hstart⟩

/-- All that a directory holds has a place. -/
theorem exists_mem_placesFrom {directory : Directory} {rest : List Step} {item : TreeItem}
    (h : directory.Holds rest item) (first : Nat) (parent : Option Nat) (path : String)
    (steps : List Step) :
    ∃ place ∈ directory.placesFrom first parent path steps,
      place.steps = steps ++ rest ∧ place.item = item := by
  induction h generalizing first parent path steps with
  | self directory =>
    rw [placesFrom_eq]
    exact ⟨_, List.mem_cons_self, by simp, rfl⟩
  | @file directory position entry h =>
    rw [placesFrom_eq]
    exact ⟨_, List.mem_cons_of_mem _ (List.mem_append_right _
      (mem_placesOfFiles.2 ⟨position, entry, h, rfl⟩)), rfl, rfl⟩
  | @inside directory child key rest item hkey h ih =>
    obtain ⟨start, hsubset⟩ := placesFrom_subset_placesOfAll first path steps hkey (first + 1)
    obtain ⟨place, hplace, hsteps, hitem⟩ := ih start (some first) _ (steps ++ [.directory key])
    rw [placesFrom_eq]
    exact ⟨place, List.mem_cons_of_mem _ (List.mem_append_left _ (hsubset hplace)),
      by simpa using hsteps, hitem⟩

end Directory

/-- The places of a document are those of what its root holds. -/
theorem Document.exists_mem_places_iff {document : Document} {steps : List Step} {item : TreeItem} :
    (∃ place ∈ document.places, place.steps = steps ∧ place.item = item) ↔
      document.root.Holds steps item := by
  constructor
  · rintro ⟨place, hplace, rfl, rfl⟩
    obtain ⟨rest, hsteps, hholds⟩ := Directory.holds_of_mem_placesFrom _ _ _ _ _ hplace
    rwa [hsteps]
  · intro h
    exact Directory.exists_mem_placesFrom h 0 none "" []

namespace Directory

mutual

/-- The path of a file is the one that its entry records. -/
theorem path_of_mem_placesFrom (first : Nat) (parent : Option Nat) (path : String)
    (steps : List Step) : (directory : Directory) → {place : Place} → {file : FileEntry} →
    place ∈ directory.placesFrom first parent path steps → place.item = .file file →
      place.path = file.path
  | ⟨name, root, files, directories⟩, place, file, h, hitem => by
    simp only [placesFrom, List.mem_cons, List.mem_append, mem_placesOfFiles] at h
    rcases h with rfl | h | ⟨position, entry, -, rfl⟩
    · cases hitem
    · exact path_of_mem_placesOfAll (first + 1) first path steps directories h hitem
    · cases hitem
      rfl

theorem path_of_mem_placesOfAll (first parent : Nat) (path : String) (steps : List Step) :
    (directories : List (String × Directory)) → {place : Place} → {file : FileEntry} →
    place ∈ placesOfAll first parent path steps directories → place.item = .file file →
      place.path = file.path
  | [], _, _, h, _ => by simp [placesOfAll] at h
  | (key, child) :: others, place, file, h, hitem => by
    simp only [placesOfAll, List.mem_append] at h
    rcases h with h | h
    · exact path_of_mem_placesFrom _ _ _ _ child h hitem
    · exact path_of_mem_placesOfAll _ _ _ _ others h hitem

end

/-! ### Directories and their subdirectories -/

mutual

/-- What holds of a directory if it holds of its subdirectories holds of every directory. -/
@[elab_as_elim]
theorem induction_below {motive : Directory → Prop}
    (step : ∀ directory : Directory,
      (∀ key child, (key, child) ∈ directory.directories → motive child) → motive directory) :
    (directory : Directory) → motive directory
  | ⟨name, path, files, directories⟩ =>
    step ⟨name, path, files, directories⟩ (induction_belowAll step directories)

theorem induction_belowAll {motive : Directory → Prop}
    (step : ∀ directory : Directory,
      (∀ key child, (key, child) ∈ directory.directories → motive child) → motive directory) :
    (directories : List (String × Directory)) →
      ∀ key child, (key, child) ∈ directories → motive child
  | [], _, _, h => absurd h List.not_mem_nil
  | (_, first) :: rest, key, child, h => by
    rcases List.mem_cons.1 h with heq | h
    · cases heq
      exact induction_below step first
    · exact induction_belowAll step rest key child h

end

theorem walkAll_eq_flatMap (directories : List (String × Directory)) :
    walkAll directories = directories.flatMap fun entry => entry.2.walk := by
  induction directories with
  | nil => rfl
  | cons entry others ih => rw [walkAll, List.flatMap_cons, ih]

theorem allFiles_eq (directory : Directory) :
    directory.allFiles =
      directory.files ++ directory.directories.flatMap fun entry => entry.2.allFiles := by
  cases directory
  simp only [allFiles, walk, List.flatMap_cons, walkAll_eq_flatMap, List.flatMap_assoc]

theorem Holds.mem_allFiles {directory : Directory} {steps : List Step} {file : FileEntry}
    (h : directory.Holds steps (.file file)) : file ∈ directory.allFiles := by
  generalize hitem : TreeItem.file file = item at h
  induction h with
  | self => cases hitem
  | file h =>
    cases hitem
    rw [allFiles_eq]
    exact List.mem_append_left _ (List.mem_of_getElem? h)
  | inside hkey _ ih =>
    rw [allFiles_eq]
    exact List.mem_append_right _ (List.mem_flatMap.2 ⟨_, hkey, ih hitem⟩)

end Directory

/-- A place with a file records the path of one of the document's files. -/
theorem Document.mem_files_of_mem_places {document : Document} {place : Place} {file : FileEntry}
    (h : place ∈ document.places) (hitem : place.item = .file file) :
    file ∈ document.files ∧ place.path = file.path := by
  have hholds := Document.exists_mem_places_iff.1 ⟨place, h, rfl, hitem⟩
  exact ⟨hholds.mem_allFiles, Directory.path_of_mem_placesFrom 0 none "" [] _ h hitem⟩

/-! ### Imports -/

theorem TreeItem.source_of_mem_imports {id : Nat} {item : TreeItem} {entry : ImportEntry}
    (h : entry ∈ item.imports id) : entry.source = id := by
  cases item with
  | directory name => simp [TreeItem.imports] at h
  | file file =>
    obtain ⟨specifier, -, rfl⟩ := List.mem_map.1 h
    rfl

section Imports

variable {document : Document}

/-- An import belongs to the file whose number it has. -/
theorem Document.mem_imports {entry : ImportEntry} (h : entry ∈ document.imports) :
    ∃ place file, document.places[entry.source]? = some place ∧ place.item = .file file ∧
      entry.importer = file.path ∧ entry.specifier ∈ file.internalImports := by
  simp only [Document.imports, List.mem_flatMap, Prod.exists, List.mk_mem_zipIdx_iff_getElem?] at h
  obtain ⟨place, id, hplace, hentry⟩ := h
  cases hitem : place.item with
  | directory name => simp [hitem, TreeItem.imports] at hentry
  | file file =>
    rw [hitem] at hentry
    obtain ⟨specifier, hspecifier, rfl⟩ := List.mem_map.1 hentry
    exact ⟨place, file, hplace, hitem, rfl, hspecifier⟩

theorem pairwise_zipIdx_lt {α : Type} (l : List α) (n : Nat) :
    (l.zipIdx n).Pairwise fun a b => a.2 < b.2 := by
  rw [← List.pairwise_map (f := Prod.snd) (R := (· < ·)), List.zipIdx_map_snd]
  exact List.pairwise_lt_range'

/-- Imports come in the order of the files that hold them. -/
theorem Document.pairwise_imports (document : Document) :
    document.imports.Pairwise fun a b => a.source ≤ b.source := by
  rw [Document.imports, List.pairwise_flatMap]
  constructor
  · intro entry _
    refine List.pairwise_of_forall_mem_list fun a ha b hb => ?_
    rw [TreeItem.source_of_mem_imports ha, TreeItem.source_of_mem_imports hb]
  · refine (pairwise_zipIdx_lt _ 0).imp fun hlt a ha b hb => ?_
    rw [TreeItem.source_of_mem_imports ha, TreeItem.source_of_mem_imports hb]
    exact hlt.le

/-- The imports with the number of a place are those of its item. -/
theorem Document.filter_imports {id : Nat} {place : Place}
    (h : document.places[id]? = some place) :
    (document.imports.filter fun entry => entry.source = id) = place.item.imports id := by
  have hother (q : Place × Nat) (hq : q.2 ≠ id) :
      ((q.1.item.imports q.2).filter fun entry => entry.source = id) = [] := by
    refine List.filter_eq_nil_iff.2 fun entry hentry => ?_
    simpa [TreeItem.source_of_mem_imports hentry] using hq
  have hself : ((place.item.imports id).filter fun entry => entry.source = id) =
      place.item.imports id := by
    refine List.filter_eq_self.2 fun entry hentry => ?_
    simpa using TreeItem.source_of_mem_imports hentry
  -- the places before and after the given one have other numbers
  obtain ⟨hid, rfl⟩ := List.getElem?_eq_some_iff.1 h
  have hlength : (document.places.take id).length = id := by
    rw [List.length_take]
    omega
  rw [Document.imports, List.filter_flatMap]
  conv_lhs => rw [← List.take_append_drop id document.places, List.drop_eq_getElem_cons hid]
  rw [List.zipIdx_append, List.zipIdx_cons, List.flatMap_append, List.flatMap_cons]
  rw [List.flatMap_eq_nil_iff.2, List.flatMap_eq_nil_iff.2]
  · simpa [hlength] using hself
  · intro q hq
    have := List.le_snd_of_mem_zipIdx hq
    exact hother q (by omega)
  · intro q hq
    have := List.snd_lt_of_mem_zipIdx hq
    exact hother q (by omega)

end Imports

end SourceAtlas
