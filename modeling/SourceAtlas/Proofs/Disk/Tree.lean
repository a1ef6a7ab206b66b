import Mathlib.Tactic
import SourceAtlas.Disk.Basic
import SourceAtlas.Proofs.Text.Segments

/-!
# File trees

A well-formed tree has its entries in the order of their names, each name once, and its names can
stand in a path. In such a tree the chains of names that lead somewhere are those of its entries.
-/

namespace SourceAtlas

open Text

namespace FileTree

/-- Whether a text may name an entry of a directory. -/
def IsName (name : List Char) : Prop :=
  name ≠ [] ∧ '/' ∉ name ∧ name ≠ ['.'] ∧ name ≠ ['.', '.']

mutual

/-- Whether the entries of all directories of a tree are in the order of their names, each name
once, and have names that may stand there. -/
def WellFormed : FileTree → Prop
  | directory entries => (entries.map Prod.fst).Pairwise (· < ·) ∧ WellFormedAll entries
  | _ => True

/-- Whether all of the entries have names that may stand there, and well-formed trees. -/
def WellFormedAll : List (List Char × FileTree) → Prop
  | [] => True
  | (name, tree) :: rest => IsName name ∧ tree.WellFormed ∧ WellFormedAll rest

end

instance : DecidablePred IsName := fun name =>
  inferInstanceAs (Decidable (name ≠ [] ∧ '/' ∉ name ∧ name ≠ ['.'] ∧ name ≠ ['.', '.']))

mutual

/-- Decides whether a tree is well formed. -/
def decideWellFormed : (tree : FileTree) → Decidable tree.WellFormed
  | file _ => .isTrue trivial
  | link _ => .isTrue trivial
  | directory entries =>
    have := decideWellFormedAll entries
    inferInstanceAs (Decidable ((entries.map Prod.fst).Pairwise (· < ·) ∧ WellFormedAll entries))

/-- Decides whether entries have names that may stand there and well-formed trees. -/
def decideWellFormedAll : (entries : List (List Char × FileTree)) →
    Decidable (WellFormedAll entries)
  | [] => .isTrue trivial
  | (name, tree) :: rest =>
    have := decideWellFormed tree
    have := decideWellFormedAll rest
    inferInstanceAs (Decidable (IsName name ∧ tree.WellFormed ∧ WellFormedAll rest))

end

instance : DecidablePred WellFormed := decideWellFormed

theorem wellFormedAll_iff {entries : List (List Char × FileTree)} :
    WellFormedAll entries ↔ ∀ name tree, (name, tree) ∈ entries → IsName name ∧ tree.WellFormed := by
  induction entries with
  | nil => simp [WellFormedAll]
  | cons entry rest ih =>
    obtain ⟨name, tree⟩ := entry
    rw [WellFormedAll, ih]
    constructor
    · rintro ⟨hname, htree, hrest⟩ n t hmem
      rcases List.mem_cons.1 hmem with heq | hmem
      · cases heq
        exact ⟨hname, htree⟩
      · exact hrest n t hmem
    · intro h
      obtain ⟨hname, htree⟩ := h name tree (by simp)
      exact ⟨hname, htree, fun n t hmem => h n t (by simp [hmem])⟩

/-! ### Entries -/

theorem child?_directory (entries : List (List Char × FileTree)) (name : List Char) :
    (directory entries).child? name = (entries.find? fun (n, _) => n = name).map Prod.snd := rfl

theorem mem_of_child? {entries : List (List Char × FileTree)} {name : List Char} {tree : FileTree}
    (h : (directory entries).child? name = some tree) : (name, tree) ∈ entries := by
  rw [child?_directory, Option.map_eq_some_iff] at h
  obtain ⟨⟨n, t⟩, hfind, rfl⟩ := h
  have hn := List.find?_some hfind
  rw [decide_eq_true_eq] at hn
  exact hn ▸ List.mem_of_find?_eq_some hfind

theorem child?_of_mem {entries : List (List Char × FileTree)} {name : List Char} {tree : FileTree}
    (hnames : (entries.map Prod.fst).Pairwise (· < ·)) (h : (name, tree) ∈ entries) :
    (directory entries).child? name = some tree := by
  rw [child?_directory]
  induction entries with
  | nil => cases h
  | cons entry rest ih =>
    obtain ⟨n, t⟩ := entry
    obtain ⟨hfirst, hnames⟩ := List.pairwise_cons.1 hnames
    rcases List.mem_cons.1 h with heq | hmem
    · cases heq
      simp
    · have hne : n ≠ name := by
        rintro rfl
        exact List.lt_irrefl n (hfirst n (List.mem_map.2 ⟨_, hmem, rfl⟩))
      rw [List.find?_cons_of_neg (by simpa using hne)]
      exact ih hnames hmem

@[simp] theorem child?_file (content : ByteArray) (name : List Char) :
    (file content).child? name = none := rfl

@[simp] theorem child?_link (target name : List Char) : (link target).child? name = none := rfl

@[simp] theorem get?_nil (tree : FileTree) : tree.get? [] = some tree := by rw [get?]

theorem get?_cons (tree : FileTree) (name : List Char) (names : List (List Char)) :
    tree.get? (name :: names) = (tree.child? name).bind fun child => child.get? names := by
  rw [get?]

theorem get?_append (tree : FileTree) (names more : List (List Char)) :
    tree.get? (names ++ more) = (tree.get? names).bind fun found => found.get? more := by
  induction names generalizing tree with
  | nil => rw [List.nil_append, get?_nil, Option.bind_some]
  | cons name names ih =>
    rw [List.cons_append, get?_cons, get?_cons, Option.bind_assoc]
    simp only [ih]

/-- Above a node there is a directory. -/
theorem get?_above {tree found : FileTree} {above below : List (List Char)} {name : List Char}
    (h : tree.get? (above ++ name :: below) = some found) :
    ∃ entries, tree.get? above = some (.directory entries) := by
  rw [get?_append, Option.bind_eq_some_iff] at h
  obtain ⟨parent, habove, h⟩ := h
  rw [get?_cons] at h
  cases parent with
  | file content => cases h
  | link target => cases h
  | directory entries => exact ⟨entries, habove⟩

/-- A tree in which a chain of names leads to a directory is a directory. -/
theorem eq_directory_of_get? {tree : FileTree} {names : List (List Char)}
    {entries : List (List Char × FileTree)} (h : tree.get? names = some (.directory entries)) :
    ∃ children, tree = .directory children := by
  cases names with
  | nil =>
    rw [get?_nil, Option.some.injEq] at h
    exact ⟨entries, h⟩
  | cons name names =>
    obtain ⟨children, hroot⟩ := @get?_above tree _ [] names name h
    rw [get?_nil, Option.some.injEq] at hroot
    exact ⟨children, hroot⟩

/-- What a chain of names leads to is well formed, and so are the names. -/
theorem WellFormed.get? {tree found : FileTree} (hwf : tree.WellFormed)
    {names : List (List Char)} (h : tree.get? names = some found) :
    found.WellFormed ∧ ∀ name ∈ names, IsName name := by
  induction names generalizing tree with
  | nil =>
    rw [get?_nil, Option.some.injEq] at h
    exact ⟨h ▸ hwf, by simp⟩
  | cons name names ih =>
    rw [get?_cons, Option.bind_eq_some_iff] at h
    obtain ⟨child, hchild, h⟩ := h
    cases tree with
    | file content => cases hchild
    | link target => cases hchild
    | directory entries =>
      obtain ⟨hname, hchildwf⟩ := wellFormedAll_iff.1 hwf.2 _ _ (mem_of_child? hchild)
      obtain ⟨hfound, hnames⟩ := ih hchildwf h
      exact ⟨hfound, by simpa using ⟨hname, hnames⟩⟩

end FileTree

end SourceAtlas
