import SourceAtlas.Proofs.Path.Cleaning

/-!
# What a path evaluates to

A segment `..` leads one level up, an empty one or `.` leads nowhere, and every other one leads a level
down. `Path.descent` adds this up, so that the two ways in which a path can miss every name below the
root are read off its segments without evaluating them:

* a path climbs (`Climbs`) if it is relative and some of its first segments lead further up than
  down, which is when it has no value (`normalize?_eq_none_iff`);
* it returns (`Returns`) if none of its last segments lead further down than up. Unless it climbs,
  this is when its value is the root (`normalize?_eq_some_nil_iff`).

Any other path evaluates to names (`isBelowRoot_of_normalize?`), and names evaluate to themselves, so
that values are canonical (`normalize?_canonical`).
-/

namespace SourceAtlas.Path

open Text

/-! ### Levels -/

/-- The levels that a segment leads down. -/
def level (segment : List Char) : Int :=
  if segment = [] ∨ segment = ['.'] then 0 else if segment = ['.', '.'] then -1 else 1

/-- The levels that segments lead down, one after another. -/
def descent : List (List Char) → Int
  | [] => 0
  | segment :: rest => level segment + descent rest

@[simp] theorem descent_nil : descent [] = 0 := rfl

@[simp] theorem descent_cons (segment : List Char) (rest : List (List Char)) :
    descent (segment :: rest) = level segment + descent rest := rfl

@[simp] theorem level_parent : level ['.', '.'] = -1 := rfl

theorem level_of_ne {segment : List Char} (hlead : segment ≠ [] ∧ segment ≠ ['.'])
    (hparent : segment ≠ ['.', '.']) : level segment = 1 := by
  rw [level, if_neg (not_or.2 hlead), if_neg hparent]

theorem segments_eq_filter (path : List Char) :
    segments path = (path.splitOn '/').filter fun segment => segment ≠ [] ∧ segment ≠ ['.'] := by
  refine List.filter_congr fun segment _ => ?_
  cases segment <;> simp

/-- The value of a path: its segments that are neither empty nor `.`, evaluated on a stack and joined
again. -/
def value? (path : List Char) : Option (List Char) :=
  (evaluate (path.head? = some '/') []
    ((path.splitOn '/').filter fun segment => segment ≠ [] ∧ segment ≠ ['.'])).map ['/'].intercalate

theorem normalize?_eq_value? (path : List Char) : normalize? path = value? path := by
  rw [normalize?_eq_evaluate, segments_eq_filter]
  rfl

/-- Segments that lead nowhere do not count. -/
theorem descent_filter (segs : List (List Char)) :
    descent (segs.filter fun segment => segment ≠ [] ∧ segment ≠ ['.']) = descent segs := by
  induction segs with
  | nil => rfl
  | cons segment segs ih =>
    by_cases hlead : segment ≠ [] ∧ segment ≠ ['.']
    · rw [List.filter_cons_of_pos (by simpa using hlead), descent_cons, descent_cons, ih]
    · have hlevel : level segment = 0 := if_pos (by tauto)
      rw [List.filter_cons_of_neg (by simpa using hlead), ih, descent_cons, hlevel, zero_add]

/-- Whether a path climbs above the directory where it starts: some of its first segments lead
further up than down. Above the root of the file system there is nothing to climb to. -/
def Climbs (path : List Char) : Prop :=
  path.head? ≠ some '/' ∧ ∃ first, first <+: path.splitOn '/' ∧ descent first < 0

/-- Whether every name of a path is taken back by a later `..`: none of its last segments lead
further down than up. -/
def Returns (path : List Char) : Prop := ∀ last, last <:+ path.splitOn '/' → descent last ≤ 0

theorem climbs_iff {path : List Char} : Climbs path ↔
    isAbsolute path = false ∧ ∃ first, first <+: segments path ∧ descent first < 0 := by
  have habsolute : isAbsolute path = false ↔ path.head? ≠ some '/' := decide_eq_false_iff_not
  rw [Climbs, habsolute, segments_eq_filter]
  refine and_congr_right fun _ => ⟨?_, ?_⟩
  · rintro ⟨first, hprefix, hdescent⟩
    exact ⟨_, hprefix.filter _, by rwa [descent_filter]⟩
  · rintro ⟨first, hprefix, hdescent⟩
    obtain ⟨before, hbefore, rfl⟩ := List.prefix_filter_iff.1 hprefix
    exact ⟨before, hbefore, by rwa [descent_filter] at hdescent⟩

theorem returns_iff {path : List Char} :
    Returns path ↔ ∀ last, last <:+ segments path → descent last ≤ 0 := by
  rw [Returns, segments_eq_filter]
  constructor
  · intro h last hsuffix
    obtain ⟨after, hafter, rfl⟩ := List.suffix_filter_iff.1 hsuffix
    rw [descent_filter]
    exact h after hafter
  · intro h last hsuffix
    have hdescent := h _ (hsuffix.filter _)
    rwa [descent_filter] at hdescent

/-! ### Evaluation on a stack -/

section Evaluate

variable {absolute : Bool} {stack : List (List Char)}

/-- Names are put on the stack. -/
theorem evaluate_names {names : List (List Char)} (h : ∀ name ∈ names, name ≠ ['.', '.'])
    (stack rest : List (List Char)) :
    evaluate absolute stack (names ++ rest) = evaluate absolute (names.reverse ++ stack) rest := by
  induction names generalizing stack with
  | nil => rfl
  | cons name names ih =>
    rw [List.cons_append, evaluate_name (h name List.mem_cons_self),
      ih fun n hn => h n (List.mem_cons_of_mem _ hn)]
    simp

/-- As many `..` segments take as many names from the stack. -/
theorem evaluate_parents (names stack rest : List (List Char)) :
    evaluate absolute (names ++ stack) (List.replicate names.length ['.', '.'] ++ rest) =
      evaluate absolute stack rest := by
  induction names with
  | nil => rfl
  | cons name names ih =>
    rw [List.length_cons, List.replicate_succ, List.cons_append, List.cons_append, evaluate_parent,
      ih]

/-- Only names are left on the stack. -/
theorem isName_of_evaluate {segs result : List (List Char)}
    (hsegs : ∀ segment ∈ segs, segment ≠ [] ∧ '/' ∉ segment ∧ segment ≠ ['.'])
    (hstack : ∀ name ∈ stack, FileTree.IsName name)
    (h : evaluate absolute stack segs = some result) : ∀ name ∈ result, FileTree.IsName name := by
  induction segs generalizing stack with
  | nil =>
    obtain rfl := Option.some.inj h
    simpa using hstack
  | cons segment rest ih =>
    have hrest := fun s hs => hsegs s (List.mem_cons_of_mem _ hs)
    by_cases hparent : segment = ['.', '.']
    · subst hparent
      cases stack with
      | nil =>
        rw [evaluate_parent_nil] at h
        split at h
        · exact ih hrest hstack h
        · cases h
      | cons top stack =>
        rw [evaluate_parent] at h
        exact ih hrest (fun n hn => hstack n (List.mem_cons_of_mem _ hn)) h
    · rw [evaluate_name hparent] at h
      obtain ⟨hne, hslash, hdot⟩ := hsegs segment List.mem_cons_self
      refine ih hrest ?_ h
      intro name hname
      rcases List.mem_cons.1 hname with rfl | hname
      · exact ⟨hne, hslash, hdot, hparent⟩
      · exact hstack name hname

theorem evaluate_true_ne_none (stack segs : List (List Char)) : evaluate true stack segs ≠ none := by
  induction segs generalizing stack with
  | nil => simp [evaluate]
  | cons segment rest ih =>
    by_cases hparent : segment = ['.', '.']
    · subst hparent
      cases stack with
      | nil =>
        rw [evaluate_parent_nil, if_pos rfl]
        exact ih []
      | cons top stack =>
        rw [evaluate_parent]
        exact ih stack
    · rw [evaluate_name hparent]
      exact ih (segment :: stack)

/-- A relative path has no value if some of its first segments lead further up than the stack is
high. -/
theorem evaluate_eq_none_iff (stack : List (List Char)) {segs : List (List Char)}
    (hsegs : ∀ segment ∈ segs, segment ≠ [] ∧ segment ≠ ['.']) :
    evaluate false stack segs = none ↔
      ∃ first, first <+: segs ∧ (stack.length : Int) + descent first < 0 := by
  induction segs generalizing stack with
  | nil =>
    constructor
    · intro h
      cases h
    · rintro ⟨first, hprefix, hlt⟩
      rw [List.prefix_nil.1 hprefix, descent_nil] at hlt
      omega
  | cons segment rest ih =>
    have ih := fun stack => ih stack fun s hs => hsegs s (List.mem_cons_of_mem _ hs)
    -- a first stretch that leads out is not empty, so it opens with the same segment
    have hcons (height : Nat) :
        (∃ first, first <+: segment :: rest ∧ (height : Int) + descent first < 0) ↔
          ∃ first, first <+: rest ∧ (height : Int) + level segment + descent first < 0 := by
      constructor
      · rintro ⟨first, hprefix, hlt⟩
        cases first with
        | nil =>
          rw [descent_nil] at hlt
          omega
        | cons s first =>
          obtain ⟨rfl, hfirst⟩ := List.cons_prefix_cons.1 hprefix
          rw [descent_cons] at hlt
          exact ⟨first, hfirst, by omega⟩
      · rintro ⟨first, hprefix, hlt⟩
        exact ⟨segment :: first, List.cons_prefix_cons.2 ⟨rfl, hprefix⟩, by
          rw [descent_cons]; omega⟩
    rw [hcons]
    by_cases hparent : segment = ['.', '.']
    · subst hparent
      cases stack with
      | nil =>
        rw [evaluate_parent_nil, if_neg Bool.false_ne_true]
        exact iff_of_true rfl ⟨[], List.nil_prefix, by simp⟩
      | cons top stack =>
        rw [evaluate_parent, ih]
        refine exists_congr fun first => and_congr_right fun _ => ?_
        rw [level_parent, List.length_cons]
        omega
    · rw [evaluate_name hparent, ih]
      refine exists_congr fun first => and_congr_right fun _ => ?_
      rw [level_of_ne (hsegs segment List.mem_cons_self) hparent, List.length_cons]
      omega

/-- The value is the root if the stack and all names are taken away again. -/
theorem eq_nil_iff_of_evaluate {segs result : List (List Char)}
    (hsegs : ∀ segment ∈ segs, segment ≠ [] ∧ segment ≠ ['.'])
    (h : evaluate absolute stack segs = some result) :
    result = [] ↔ (stack.length : Int) + descent segs ≤ 0 ∧
      ∀ last, last <:+ segs → descent last ≤ 0 := by
  induction segs generalizing stack with
  | nil =>
    obtain rfl := Option.some.inj h
    simp
  | cons segment rest ih =>
    have ih := fun stack => @ih stack fun s hs => hsegs s (List.mem_cons_of_mem _ hs)
    have hcons (P : List (List Char) → Prop) :
        (∀ last, last <:+ segment :: rest → P last) ↔
          P (segment :: rest) ∧ ∀ last, last <:+ rest → P last := by
      simp only [List.suffix_cons_iff, forall_eq_or_imp]
    have hrest (H : ∀ last, last <:+ rest → descent last ≤ 0) : descent rest ≤ 0 :=
      H rest (List.suffix_refl rest)
    rw [hcons, descent_cons]
    by_cases hparent : segment = ['.', '.']
    · subst hparent
      rw [level_parent]
      cases stack with
      | nil =>
        rw [evaluate_parent_nil] at h
        split at h
        · rw [ih _ h, List.length_nil]
          constructor
          · rintro ⟨-, hlast⟩
            have := hrest hlast
            exact ⟨by omega, by omega, hlast⟩
          · rintro ⟨-, -, hlast⟩
            have := hrest hlast
            exact ⟨by omega, hlast⟩
        · cases h
      | cons top stack =>
        rw [evaluate_parent] at h
        rw [ih _ h, List.length_cons]
        constructor
        · rintro ⟨hdescent, hlast⟩
          have := hrest hlast
          exact ⟨by omega, by omega, hlast⟩
        · rintro ⟨hdescent, -, hlast⟩
          exact ⟨by omega, hlast⟩
    · rw [evaluate_name hparent] at h
      rw [ih _ h, level_of_ne (hsegs segment List.mem_cons_self) hparent, List.length_cons]
      constructor
      · rintro ⟨hdescent, hlast⟩
        exact ⟨by omega, by omega, hlast⟩
      · rintro ⟨hdescent, -, hlast⟩
        exact ⟨by omega, hlast⟩

end Evaluate

/-! ### Values of paths -/

variable {path : List Char}

theorem isName_of_evaluate_segments {names : List (List Char)}
    (h : evaluate (isAbsolute path) [] (segments path) = some names) :
    ∀ name ∈ names, FileTree.IsName name :=
  isName_of_evaluate (fun _ hs => of_mem_segments hs) (by simp) h

theorem leads_of_mem_segments {segment : List Char} (h : segment ∈ segments path) :
    segment ≠ [] ∧ segment ≠ ['.'] :=
  ⟨(of_mem_segments h).1, (of_mem_segments h).2.2⟩

theorem normalize?_eq_none_iff : normalize? path = none ↔ Climbs path := by
  rw [normalize?_eq_evaluate, Option.map_eq_none_iff, climbs_iff]
  cases isAbsolute path with
  | true => simp [evaluate_true_ne_none]
  | false => simp [evaluate_eq_none_iff [] fun _ => leads_of_mem_segments]

theorem normalize?_eq_some_nil_iff : normalize? path = some [] ↔ ¬ Climbs path ∧ Returns path := by
  rw [← normalize?_eq_none_iff, normalize?_eq_evaluate, Option.map_eq_none_iff,
    Option.map_eq_some_iff, returns_iff]
  cases h : evaluate (isAbsolute path) [] (segments path) with
  | none => simp
  | some names =>
    have hempty : ['/'].intercalate names = [] ↔ names = [] :=
      intercalate_eq_nil_iff fun name hname => (isName_of_evaluate_segments h name hname).1
    have hreturns := eq_nil_iff_of_evaluate (fun _ => leads_of_mem_segments) h
    simp only [Option.some.injEq, exists_eq_left', reduceCtorEq, not_false_eq_true, true_and]
    rw [hempty, hreturns, List.length_nil]
    constructor
    · rintro ⟨-, hlast⟩
      exact hlast
    · intro hlast
      have := hlast _ (List.suffix_refl (segments path))
      exact ⟨by omega, hlast⟩

/-- A value other than the root consists of names. -/
theorem isBelowRoot_of_normalize? {value : List Char} (h : normalize? path = some value)
    (hne : value ≠ []) : IsBelowRoot value := by
  rw [normalize?_eq_evaluate] at h
  obtain ⟨names, hnames, rfl⟩ := Option.map_eq_some_iff.1 h
  refine ⟨names, ?_, isName_of_evaluate_segments hnames, rfl⟩
  rintro rfl
  exact hne rfl

/-- A path that consists of names is its own value. -/
theorem normalize?_ofNames {names : List (List Char)} (h : ∀ name ∈ names, FileTree.IsName name) :
    normalize? (ofNames names) = some (ofNames names) := by
  have hevaluate : evaluate (isAbsolute (ofNames names)) [] (names ++ []) =
      evaluate (isAbsolute (ofNames names)) (names.reverse ++ []) [] :=
    evaluate_names (fun name hname => (h name hname).2.2.2) [] []
  rw [List.append_nil, List.append_nil] at hevaluate
  rw [normalize?_eq_evaluate, segments_ofNames h, hevaluate, evaluate, List.reverse_reverse,
    Option.map_some, ofNames]

/-- A path that consists of names neither starts nor ends with a slash. -/
theorem IsBelowRoot.slash_notMem_ends (h : IsBelowRoot path) :
    path.head? ≠ some '/' ∧ path.getLast? ≠ some '/' := by
  have hnames := isBelowRoot_iff.1 h
  constructor
  · intro hhead
    obtain ⟨rest, rfl⟩ := List.head?_eq_some_iff.1 hhead
    exact (hnames [] (by simp [List.splitOn_cons_eq_if_modifyHead])).1 rfl
  · intro hlast
    obtain ⟨rest, rfl⟩ := List.getLast?_eq_some_iff.1 hlast
    rw [List.splitOn_append_cons_self] at hnames
    exact (hnames [] (by simp)).1 rfl

/-- **A path is evaluated segment by segment, and its value is canonical.** A value has no segment `.`
or `..`, none that is empty unless it is empty itself, and no slash at its ends, and it evaluates to
itself. -/
theorem normalize?_canonical (path : List Char) :
    normalize? path = value? path ∧
      ∀ value, normalize? path = some value →
        (∀ segment ∈ value.splitOn '/',
          segment ≠ ['.'] ∧ segment ≠ ['.', '.'] ∧ (value ≠ [] → segment ≠ [])) ∧
        value.head? ≠ some '/' ∧ value.getLast? ≠ some '/' ∧ normalize? value = some value := by
  refine ⟨normalize?_eq_value? path, fun value hvalue => ?_⟩
  by_cases hempty : value = []
  · subst hempty
    refine ⟨fun segment hsegment => ?_, by simp, by simp, rfl⟩
    rw [List.splitOn_nil, List.mem_singleton] at hsegment
    simp [hsegment]
  · have hbelow := isBelowRoot_of_normalize? hvalue hempty
    obtain ⟨hhead, hlast⟩ := hbelow.slash_notMem_ends
    refine ⟨fun segment hsegment => ?_, hhead, hlast, ?_⟩
    · obtain ⟨hne, -, hdot, hparent⟩ := isBelowRoot_iff.1 hbelow segment hsegment
      exact ⟨hdot, hparent, fun _ => hne⟩
    · obtain ⟨names, -, hnames, rfl⟩ := hbelow
      exact normalize?_ofNames hnames

end SourceAtlas.Path
