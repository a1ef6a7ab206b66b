import SourceAtlas.Proofs.Disk.Tree

/-!
# Paths as chains of names

`Path.ofNames` joins names by slashes. Names that can stand in a path are found again in it, as its
parts and as the segments that matter.
-/

namespace SourceAtlas

open Text

/-- The path of a chain of names. -/
def Path.ofNames (names : List (List Char)) : List Char := ['/'].intercalate names

/-- A chain of names is found again in its path. -/
theorem Path.splitOn_ofNames {names : List (List Char)} (hne : names ≠ [])
    (h : ∀ name ∈ names, FileTree.IsName name) : (Path.ofNames names).splitOn '/' = names :=
  List.splitOn_intercalate '/' (fun name hname => (h name hname).2.1) hne

theorem Path.below_ofNames {names : List (List Char)} (h : ∀ name ∈ names, FileTree.IsName name)
    (name : List Char) : Path.below (Path.ofNames names) name = Path.ofNames (names ++ [name]) := by
  have hempty : Path.ofNames names = [] ↔ names = [] :=
    intercalate_eq_nil_iff fun n hn => (h n hn).1
  by_cases hnames : names = []
  · subst hnames
    exact List.intercalate_singleton.symm
  · rw [Path.below, if_neg (by simpa [hempty] using hnames), Path.ofNames, Path.ofNames,
      intercalate_concat hnames]

namespace Path

theorem parentText_append_slash (directory : List Char) {file : List Char} (h : '/' ∉ file) :
    parentText (directory ++ '/' :: file) = directory := by
  rw [parentText, List.splitOn_append_cons_self, List.splitOn_eq_singleton h, List.dropLast_concat,
    List.intercalate_splitOn]

theorem parentText_of_notMem {file : List Char} (h : '/' ∉ file) : parentText file = [] := by
  rw [parentText, List.splitOn_eq_singleton h]
  rfl

/-- A path has no slash, or its last slash stands behind its directory. -/
theorem notMem_or_eq_parentText_append (path : List Char) :
    '/' ∉ path ∨ ∃ file, '/' ∉ file ∧ path = parentText path ++ '/' :: file := by
  obtain ⟨parts, file, hsplit⟩ :=
    (List.eq_nil_or_concat' (path.splitOn '/')).resolve_left (List.splitOn_ne_nil '/' path)
  have hmem : file ∈ path.splitOn '/' := by simp [hsplit]
  have hfile : '/' ∉ file := notMem_of_mem_splitOn hmem
  have hpath : ['/'].intercalate (parts ++ [file]) = path := hsplit ▸ List.intercalate_splitOn '/'
  by_cases hparts : parts = []
  · refine .inl ?_
    rwa [← hpath, hparts, List.nil_append, List.intercalate_singleton]
  · refine .inr ⟨file, hfile, ?_⟩
    rw [parentText, hsplit, List.dropLast_concat, ← intercalate_concat hparts, hpath]

/-- Segments that matter are found again in the path that joins them. -/
theorem segments_intercalate {parts : List (List Char)}
    (h : ∀ part ∈ parts, part ≠ [] ∧ '/' ∉ part ∧ part ≠ ['.']) :
    segments (['/'].intercalate parts) = parts := by
  by_cases hparts : parts = []
  · subst hparts
    rfl
  · rw [segments, List.splitOn_intercalate '/' (fun part hpart => (h part hpart).2.1) hparts,
      List.filter_eq_self]
    intro part hpart
    obtain ⟨hne, -, hdot⟩ := h part hpart
    simp [hne, hdot]

theorem isAbsolute_of_notMem {path : List Char} (h : '/' ∉ path) : isAbsolute path = false := by
  have hhead : path.head? ≠ some '/' := fun hhead => h (List.mem_of_head? hhead)
  simpa [isAbsolute] using hhead

theorem isAbsolute_intercalate {parts : List (List Char)}
    (h : ∀ part ∈ parts, part ≠ [] ∧ '/' ∉ part) : isAbsolute (['/'].intercalate parts) = false := by
  cases parts with
  | nil => rfl
  | cons part parts =>
    obtain ⟨hne, hslash⟩ := h part List.mem_cons_self
    have hpart := isAbsolute_of_notMem hslash
    cases parts with
    | nil => rwa [List.intercalate_singleton]
    | cons next parts =>
      rw [List.intercalate_cons_cons, List.append_assoc, isAbsolute,
        List.head?_append_of_ne_nil _ hne]
      exact hpart

theorem segments_cons_slash (path : List Char) : segments ('/' :: path) = segments path := by
  simp [segments, List.splitOn_cons_eq_if_modifyHead]

theorem segments_ofNames {names : List (List Char)} (h : ∀ name ∈ names, FileTree.IsName name) :
    segments (ofNames names) = names :=
  segments_intercalate fun name hname => ⟨(h name hname).1, (h name hname).2.1, (h name hname).2.2.1⟩

theorem isAbsolute_ofNames {names : List (List Char)} (h : ∀ name ∈ names, FileTree.IsName name) :
    isAbsolute (ofNames names) = false :=
  isAbsolute_intercalate fun name hname => ⟨(h name hname).1, (h name hname).2.1⟩

/-- A slash divides the segments of a path. -/
theorem segments_append_slash (path rest : List Char) :
    segments (path ++ '/' :: rest) = segments path ++ segments rest := by
  rw [segments, List.splitOn_append_cons_self, List.filter_append, segments, segments]

/-- The segments of a path below another one follow those of the other one. -/
theorem segments_below (directory path : List Char) :
    segments (below directory path) = segments directory ++ segments path := by
  unfold below
  split
  next hempty =>
    rw [List.isEmpty_iff.1 hempty]
    rfl
  next => exact segments_append_slash directory path

/-- The segments of a path are neither empty nor `.`, and have no slash. -/
theorem of_mem_segments {path segment : List Char} (h : segment ∈ segments path) :
    segment ≠ [] ∧ '/' ∉ segment ∧ segment ≠ ['.'] := by
  obtain ⟨hmem, hkeep⟩ := List.mem_filter.1 h
  simp only [Bool.and_eq_true, Bool.not_eq_true', List.isEmpty_eq_false_iff,
    decide_eq_true_eq] at hkeep
  exact ⟨hkeep.1, notMem_of_mem_splitOn hmem, hkeep.2⟩

/-- Whether a path consists of names, and of one at least. -/
def IsBelowRoot (path : List Char) : Prop :=
  ∃ names, names ≠ [] ∧ (∀ name ∈ names, FileTree.IsName name) ∧ path = ofNames names

theorem ofNames_splitOn (path : List Char) : ofNames (path.splitOn '/') = path :=
  List.intercalate_splitOn '/'

theorem isBelowRoot_iff {path : List Char} :
    IsBelowRoot path ↔ ∀ segment ∈ path.splitOn '/', FileTree.IsName segment := by
  constructor
  · rintro ⟨names, hne, hnames, rfl⟩
    rwa [splitOn_ofNames hne hnames]
  · intro h
    exact ⟨_, List.splitOn_ne_nil '/' path, h, (ofNames_splitOn path).symm⟩

theorem IsBelowRoot.ne_nil {path : List Char} (h : IsBelowRoot path) : path ≠ [] := by
  obtain ⟨names, hne, hnames, rfl⟩ := h
  exact fun hempty => hne ((intercalate_eq_nil_iff fun name hname => (hnames name hname).1).1 hempty)

instance : DecidablePred IsBelowRoot := fun path =>
  haveI := List.decidableBAll FileTree.IsName (path.splitOn '/')
  decidable_of_iff _ isBelowRoot_iff.symm

/-- Different chains of names make different paths. -/
theorem ofNames_inj {names others : List (List Char)} (h : ∀ name ∈ names, FileTree.IsName name)
    (hothers : ∀ name ∈ others, FileTree.IsName name) :
    ofNames names = ofNames others ↔ names = others := by
  refine ⟨fun heq => ?_, congrArg ofNames⟩
  rw [← segments_ofNames h, heq, segments_ofNames hothers]

end Path

end SourceAtlas
