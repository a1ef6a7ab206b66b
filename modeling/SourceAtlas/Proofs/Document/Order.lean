import SourceAtlas.Project.Basic
import SourceAtlas.Proofs.Graph.Hierarchy

/-!
# Documents stay in order

Adding files to a document and pruning it keep the order of its directories, each key once, and the
path that is recorded for the root. So the document of a project is in order and records its root.
-/

namespace SourceAtlas

namespace Directory

theorem orderedAll_iff {directories : List (String × Directory)} :
    OrderedAll directories ↔ ∀ key child, (key, child) ∈ directories → child.Ordered := by
  induction directories with
  | nil => simp [OrderedAll]
  | cons entry rest ih =>
    obtain ⟨key, child⟩ := entry
    rw [OrderedAll, ih]
    constructor
    · rintro ⟨hchild, hrest⟩ k c hmem
      rcases List.mem_cons.1 hmem with heq | hmem
      · cases heq
        exact hchild
      · exact hrest k c hmem
    · intro h
      exact ⟨h key child (by simp), fun k c hmem => h k c (by simp [hmem])⟩

/-! ### Changes of one directory -/

theorem mem_alter {key other : String} {change : Option Directory → Directory} {child : Directory}
    {directories : List (String × Directory)} (h : (other, child) ∈ alter key change directories) :
    (other = key ∧ (child = change none ∨
      ∃ old, (key, old) ∈ directories ∧ child = change (some old))) ∨
      (other, child) ∈ directories := by
  induction directories with
  | nil =>
    rw [alter, List.mem_singleton] at h
    cases h
    exact .inl ⟨rfl, .inl rfl⟩
  | cons entry rest ih =>
    obtain ⟨k, c⟩ := entry
    rw [alter] at h
    split at h
    · rcases List.mem_cons.1 h with h | h
      · cases h
        exact .inl ⟨rfl, .inl rfl⟩
      · exact .inr h
    · split at h
      next heq =>
        subst heq
        rcases List.mem_cons.1 h with h | h
        · cases h
          exact .inl ⟨rfl, .inr ⟨c, by simp, rfl⟩⟩
        · exact .inr (by simp [h])
      next =>
        rcases List.mem_cons.1 h with h | h
        · cases h
          exact .inr (by simp)
        · rcases ih h with ⟨rfl, h | ⟨old, hold, h⟩⟩ | h
          · exact .inl ⟨rfl, .inl h⟩
          · exact .inl ⟨rfl, .inr ⟨old, by simp [hold], h⟩⟩
          · exact .inr (by simp [h])

theorem pairwise_alter {key : String} {change : Option Directory → Directory}
    {directories : List (String × Directory)}
    (h : (directories.map Prod.fst).Pairwise (· < ·)) :
    ((alter key change directories).map Prod.fst).Pairwise (· < ·) := by
  induction directories with
  | nil => simp [alter]
  | cons entry rest ih =>
    obtain ⟨k, c⟩ := entry
    obtain ⟨hless, hrest⟩ := List.pairwise_cons.1 h
    rw [alter]
    split
    next hlt =>
      refine List.pairwise_cons.2 ⟨fun other hother => ?_, h⟩
      rcases List.mem_cons.1 hother with rfl | hother
      · exact hlt
      · exact String.lt_trans hlt (hless other hother)
    next hlt =>
      split
      next => exact h
      next hne =>
        have hkey : k < key := by
          by_contra hle
          exact hne (String.le_antisymm (String.not_lt.1 hle) (String.not_lt.1 hlt))
        refine List.pairwise_cons.2 ⟨fun other hother => ?_, ih hrest⟩
        obtain ⟨⟨_, child⟩, hmem, rfl⟩ := List.mem_map.1 hother
        rcases mem_alter hmem with ⟨rfl, -⟩ | hmem
        · exact hkey
        · exact hless _ (List.mem_map_of_mem hmem)

/-- A change at one key keeps the order, if the changed directory is in order. -/
theorem ordered_alter {directory : Directory} (h : directory.Ordered) {key : String}
    {change : Option Directory → Directory} (hnone : (change none).Ordered)
    (hsome : ∀ child : Directory, child.Ordered → (change (some child)).Ordered) :
    ({ directory with
      directories := alter key change directory.directories } : Directory).Ordered := by
  obtain ⟨name, path, files, directories⟩ := directory
  refine ⟨pairwise_alter h.1, orderedAll_iff.2 fun other child hmem => ?_⟩
  rcases mem_alter hmem with ⟨-, rfl | ⟨old, hold, rfl⟩⟩ | hmem
  · exact hnone
  · exact hsome old (orderedAll_iff.1 h.2 key old hold)
  · exact orderedAll_iff.1 h.2 other child hmem

theorem ordered_updateAt {change : Directory → Directory}
    (hchange : ∀ directory : Directory, directory.Ordered → (change directory).Ordered)
    (names : List String) {directory : Directory} (h : directory.Ordered) :
    (updateAt change names directory).Ordered := by
  induction names generalizing directory with
  | nil => exact hchange directory h
  | cons name names ih =>
    rw [updateAt]
    exact ordered_alter h (ih ⟨List.Pairwise.nil, trivial⟩) fun child hchild => ih hchild

theorem ordered_addFile (file : FileEntry) {directory : Directory} (h : directory.Ordered) :
    (addFile file directory).Ordered := by
  obtain ⟨name, path, files, directories⟩ := directory
  exact h

theorem path_updateAt_addFile (file : FileEntry) (names : List String) (directory : Directory) :
    (updateAt (addFile file) names directory).path = directory.path := by
  cases names <;> rfl

/-! ### Pruning -/

theorem map_fst_pruneAll_sublist (directories : List (String × Directory)) :
    ((pruneAll directories).map Prod.fst).Sublist (directories.map Prod.fst) := by
  induction directories with
  | nil => exact .slnil
  | cons entry rest ih =>
    obtain ⟨key, child⟩ := entry
    rw [pruneAll]
    split
    · exact ih.cons _
    · exact ih.cons_cons _

mutual

theorem ordered_prune : (directory : Directory) → directory.Ordered → directory.prune.Ordered
  | ⟨name, path, files, directories⟩, h => by
    rw [prune]
    exact ⟨h.1.sublist (map_fst_pruneAll_sublist directories), orderedAll_pruneAll directories h.2⟩

theorem orderedAll_pruneAll : (directories : List (String × Directory)) →
    OrderedAll directories → OrderedAll (pruneAll directories)
  | [], _ => trivial
  | (key, child) :: rest, h => by
    have hrest := orderedAll_pruneAll rest h.2
    rw [pruneAll]
    split
    · exact hrest
    · exact ⟨ordered_prune child h.1, hrest⟩

end

theorem path_prune (directory : Directory) : directory.prune.path = directory.path := by
  obtain ⟨name, path, files, directories⟩ := directory
  rw [prune]

end Directory

namespace Project

/-- Whether a document is in order and records a root. -/
def Lists (root : List Char) (document : Document) : Prop :=
  document.root.Ordered ∧ document.root.path = some (String.ofList root)

theorem lists_addSourceFile {root : List Char} {document : Document} (h : Lists root document)
    (config : Config) (source : SourceFile) :
    Lists root (addSourceFile config document source) := by
  rw [addSourceFile]
  split
  next entry _ =>
    refine ⟨Directory.ordered_updateAt (fun _ => Directory.ordered_addFile entry) _ h.1, ?_⟩
    exact (Directory.path_updateAt_addFile entry _ document.root).trans h.2
  next => exact h

/-- The document of a project is in order and records the project's root. -/
theorem lists_document {project : Project} {document : Document}
    (h : project.document = .ok document) : Lists project.root document := by
  have hfold : ∀ (files : List SourceFile) (start : Document), Lists project.root start →
      Lists project.root (files.foldl (addSourceFile project.config) start) := by
    intro files
    induction files with
    | nil => exact fun start hstart => hstart
    | cons source files ih =>
      exact fun start hstart => ih _ (lists_addSourceFile hstart project.config source)
  rw [Project.document] at h
  cases hfiles : project.sourceFiles with
  | error error =>
    rw [hfiles] at h
    cases h
  | ok files =>
    rw [hfiles] at h
    cases h
    obtain ⟨hordered, hpath⟩ := hfold files (Document.new project.root)
      ⟨⟨List.Pairwise.nil, trivial⟩, rfl⟩
    exact ⟨Directory.ordered_prune _ hordered, (Directory.path_prune _).trans hpath⟩

end Project

end SourceAtlas
