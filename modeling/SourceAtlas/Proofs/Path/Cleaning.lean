import SourceAtlas.Proofs.Path.Names

/-!
# Cleaned paths

A path is evaluated in two passes over components. `clean` takes `..` back where it can and writes
the rest as a path again, and the names are read off the components of that path. A machine that
works on the segments themselves does the same in one pass: `evaluate` keeps the names on a stack
and gives up where there is none to remove.

The two agree (`normalize?_eq_evaluate`). While a path is cleaned, the components that are kept are
names, and above them the root or the `..` that could not be taken back (`exists_foldl_reduce`).
Such a chain is found again when it is written (`components_ofComponents`).
-/

namespace SourceAtlas.Path

open Text

/-! ### Evaluation on a stack -/

/-- Evaluates segments on a stack: `..` removes the last one. At the root it has nothing to remove
and is ignored; below any other directory it leaves that directory, which has no value. -/
def evaluate (absolute : Bool) : List (List Char) → List (List Char) → Option (List (List Char))
  | stack, [] => some stack.reverse
  | stack, segment :: rest =>
    if segment = ['.', '.'] then
      match stack with
      | _ :: below => evaluate absolute below rest
      | [] => if absolute then evaluate absolute [] rest else none
    else evaluate absolute (segment :: stack) rest

section Evaluate

variable {absolute : Bool} {stack : List (List Char)}

theorem evaluate_name {segment : List Char} (h : segment ≠ ['.', '.'])
    (rest : List (List Char)) :
    evaluate absolute stack (segment :: rest) = evaluate absolute (segment :: stack) rest := by
  cases stack <;> simp [evaluate, h]

theorem evaluate_parent (top : List Char) (rest : List (List Char)) :
    evaluate absolute (top :: stack) (['.', '.'] :: rest) = evaluate absolute stack rest := by
  rw [evaluate, if_pos rfl]

theorem evaluate_parent_nil (rest : List (List Char)) :
    evaluate absolute [] (['.', '.'] :: rest) =
      if absolute then evaluate absolute [] rest else none := by
  rw [evaluate, if_pos rfl]

end Evaluate

/-! ### What is kept while a path is cleaned -/

/-- What stands above the names of a cleaned path: the root, or the `..` that could not be taken
back. -/
def above (absolute : Bool) (count : Nat) : List Component :=
  if absolute then [.root] else List.replicate count .parent

theorem reverse_above (absolute : Bool) (count : Nat) :
    (above absolute count).reverse = above absolute count := by
  cases absolute <;> simp [above]

theorem foldl_reduce_start (path : List Char) :
    (start path).foldl reduce [] = above (isAbsolute path) 0 := by
  unfold start above
  split_ifs <;> rfl

theorem ofSegment_parent : Component.ofSegment ['.', '.'] = .parent := rfl

theorem ofSegment_of_ne {segment : List Char} (h : segment ≠ ['.', '.']) :
    Component.ofSegment segment = .name segment := if_neg h

/-- A `..` that has no name to take back is dropped at the root and added to the others elsewhere. -/
theorem reduce_above (absolute : Bool) (count : Nat) :
    reduce (above absolute count) .parent = above absolute (count + 1) := by
  cases absolute with
  | true => rfl
  | false => cases count <;> rfl

theorem reduce_name (reduced : List Component) (segment : List Char) :
    reduce reduced (.name segment) = .name segment :: reduced := by
  rcases reduced with - | ⟨_ | _ | _ | _, reduced⟩ <;> rfl

/-- Cleaning keeps names below what stands above them. The names are those that are left on the
stack; relative segments have no value if a `..` could not be taken back. -/
theorem exists_foldl_reduce (absolute : Bool) {segs : List (List Char)}
    (hsegs : ∀ segment ∈ segs, segment ≠ [] ∧ '/' ∉ segment ∧ segment ≠ ['.'])
    {stack : List (List Char)} (hstack : ∀ name ∈ stack, FileTree.IsName name) (count : Nat) :
    ∃ names more,
      (segs.map Component.ofSegment).foldl reduce (stack.map .name ++ above absolute count) =
          names.reverse.map .name ++ above absolute (count + more) ∧
        (∀ name ∈ names, FileTree.IsName name) ∧
        evaluate absolute stack segs = if absolute ∨ more = 0 then some names else none := by
  induction segs generalizing stack count with
  | nil => exact ⟨stack.reverse, 0, by simp, by simpa using hstack, by simp [evaluate]⟩
  | cons segment rest ih =>
    have hrest := fun s hs => hsegs s (List.mem_cons_of_mem _ hs)
    rw [List.map_cons, List.foldl_cons]
    by_cases hparent : segment = ['.', '.']
    · subst hparent
      cases stack with
      | nil =>
        obtain ⟨names, more, hreduced, hnames, hvalue⟩ := ih hrest hstack (count + 1)
        refine ⟨names, more + 1, ?_, hnames, ?_⟩
        · rwa [ofSegment_parent, List.map_nil, List.nil_append, reduce_above, Nat.add_comm more 1,
            ← Nat.add_assoc]
        · rw [evaluate_parent_nil]
          cases absolute with
          | true => simpa using hvalue
          | false => simp
      | cons top stack =>
        rw [evaluate_parent]
        exact ih hrest (fun name hname => hstack name (List.mem_cons_of_mem _ hname)) count
    · rw [ofSegment_of_ne hparent, reduce_name, evaluate_name hparent]
      obtain ⟨hne, hslash, hdot⟩ := hsegs segment List.mem_cons_self
      have hpushed : ∀ name ∈ segment :: stack, FileTree.IsName name := by
        intro name hname
        rcases List.mem_cons.1 hname with rfl | hname
        · exact ⟨hne, hslash, hdot, hparent⟩
        · exact hstack name hname
      exact ih hrest hpushed count

/-! ### Written components -/

theorem joined_of_ne {base part : List Char} (hbase : base ≠ []) (hlast : base.getLast? ≠ some '/')
    (hpart : '/' ∉ part) : joined base part = base ++ '/' :: part := by
  simp [joined, isAbsolute_of_notMem hpart, hbase, hlast]

/-- Parts without a slash are joined by slashes, one after another. -/
theorem foldl_joined {base : List Char} {parts : List (List Char)} (hbase : base ≠ [])
    (hlast : base.getLast? ≠ some '/') (h : ∀ part ∈ parts, part ≠ [] ∧ '/' ∉ part) :
    parts.foldl joined base = ['/'].intercalate (base :: parts) := by
  induction parts generalizing base with
  | nil => rw [List.foldl_nil, List.intercalate_singleton]
  | cons part parts ih =>
    obtain ⟨hne, hslash⟩ := h part List.mem_cons_self
    have hend : (base ++ '/' :: part).getLast? ≠ some '/' := by
      rw [List.append_cons, List.getLast?_append_of_ne_nil _ hne]
      exact fun hmem => hslash (List.mem_of_getLast? hmem)
    rw [List.foldl_cons, joined_of_ne hbase hlast hslash,
      ih (by simp) hend fun p hp => h p (List.mem_cons_of_mem _ hp), List.append_cons,
      intercalate_cons_append, List.intercalate_cons_cons]

theorem foldl_joined_nil {parts : List (List Char)} (h : ∀ part ∈ parts, part ≠ [] ∧ '/' ∉ part) :
    parts.foldl joined [] = ['/'].intercalate parts := by
  cases parts with
  | nil => rfl
  | cons part parts =>
    obtain ⟨hne, hslash⟩ := h part List.mem_cons_self
    have hfirst : joined [] part = part := by simp [joined]
    rw [List.foldl_cons, hfirst]
    exact foldl_joined hne (fun hlast => hslash (List.mem_of_getLast? hlast))
      fun p hp => h p (List.mem_cons_of_mem _ hp)

theorem foldl_joined_root {parts : List (List Char)} (h : ∀ part ∈ parts, part ≠ [] ∧ '/' ∉ part) :
    parts.foldl joined ['/'] = '/' :: ['/'].intercalate parts := by
  cases parts with
  | nil => rfl
  | cons part parts =>
    obtain ⟨hne, hslash⟩ := h part List.mem_cons_self
    have hfirst : joined ['/'] part = ['/'] ++ part := by
      simp [joined, isAbsolute_of_notMem hslash]
    have hend : (['/'] ++ part).getLast? ≠ some '/' := by
      rw [List.getLast?_append_of_ne_nil _ hne]
      exact fun hlast => hslash (List.mem_of_getLast? hlast)
    rw [List.foldl_cons, hfirst,
      foldl_joined (by simp) hend fun p hp => h p (List.mem_cons_of_mem _ hp),
      intercalate_cons_append]
    rfl

/-- Segments that matter are found again as the components of the path that joins them. -/
theorem components_intercalate {parts : List (List Char)}
    (h : ∀ part ∈ parts, part ≠ [] ∧ '/' ∉ part ∧ part ≠ ['.']) :
    components (['/'].intercalate parts) = parts.map Component.ofSegment := by
  have hstart : start (['/'].intercalate parts) = [] := by
    have hrelative := isAbsolute_intercalate fun part hpart => ⟨(h part hpart).1, (h part hpart).2.1⟩
    have hfirst : ((['/'].intercalate parts).splitOn '/').head? ≠ some ['.'] := by
      by_cases hparts : parts = []
      · subst hparts
        decide
      · rw [List.splitOn_intercalate '/' (fun part hpart => (h part hpart).2.1) hparts]
        exact fun hhead => (h _ (List.mem_of_head? hhead)).2.2 rfl
    rw [start, hrelative, if_neg Bool.false_ne_true, if_neg hfirst]
  rw [components, hstart, segments_intercalate h, List.nil_append]

theorem map_ofSegment {names : List (List Char)} (h : ∀ name ∈ names, FileTree.IsName name) :
    names.map Component.ofSegment = names.map .name :=
  List.map_congr_left fun name hname => ofSegment_of_ne (h name hname).2.2.2

/-- A cleaned chain of components is found again when it is written. -/
theorem components_ofComponents {names : List (List Char)}
    (h : ∀ name ∈ names, FileTree.IsName name) (absolute : Bool) (count : Nat) :
    components (ofComponents (above absolute count ++ names.map .name)) =
      above absolute count ++ names.map .name := by
  have htexts : (names.map Component.name).map Component.text = names := by
    rw [List.map_map]
    exact List.map_id names
  have hof (chain : List Component) :
      ofComponents chain = (chain.map Component.text).foldl joined [] := by
    rw [List.foldl_map, ofComponents]
  cases absolute with
  | true =>
    have hnames : ∀ name ∈ names, name ≠ [] ∧ '/' ∉ name :=
      fun name hname => ⟨(h name hname).1, (h name hname).2.1⟩
    have hwritten : ofComponents (above true count ++ names.map .name) = '/' :: ofNames names := by
      rw [hof, List.map_append, htexts]
      exact foldl_joined_root hnames
    rw [hwritten, components, segments_cons_slash, segments_ofNames h, map_ofSegment h]
    rfl
  | false =>
    have hparts : ∀ part ∈ List.replicate count ['.', '.'] ++ names,
        part ≠ [] ∧ '/' ∉ part ∧ part ≠ ['.'] := by
      intro part hpart
      rcases List.mem_append.1 hpart with hpart | hpart
      · rw [List.eq_of_mem_replicate hpart]
        decide
      · exact ⟨(h part hpart).1, (h part hpart).2.1, (h part hpart).2.2.1⟩
    have hwritten : ofComponents (above false count ++ names.map .name) =
        ['/'].intercalate (List.replicate count ['.', '.'] ++ names) := by
      rw [hof, List.map_append, htexts, above, if_neg Bool.false_ne_true, List.map_replicate]
      exact foldl_joined_nil fun part hpart => ⟨(hparts part hpart).1, (hparts part hpart).2.1⟩
    rw [hwritten, components_intercalate hparts, List.map_append, map_ofSegment h, List.map_replicate,
      above, if_neg Bool.false_ne_true, ofSegment_parent]

/-! ### Both passes -/

/-- Names are read off components unless a `..` stands above them. -/
theorem namesOf?_above (absolute : Bool) (count : Nat) (names : List (List Char)) :
    namesOf? (above absolute count ++ names.map .name) =
      if absolute ∨ count = 0 then some names else none := by
  have hnames : namesOf? (names.map .name) = some names := by
    induction names with
    | nil => rfl
    | cons name names ih => rw [List.map_cons, namesOf?, ih, Option.map_some]
  cases absolute with
  | true => simpa [above, namesOf?] using hnames
  | false =>
    cases count with
    | zero => simpa [above] using hnames
    | succ count => simp [above, List.replicate_succ, namesOf?]

/-- **Cleaning a path and reading its names is evaluation on a stack.** -/
theorem normalize?_eq_evaluate (path : List Char) :
    normalize? path = (evaluate (isAbsolute path) [] (segments path)).map ['/'].intercalate := by
  have hstack : ∀ name ∈ ([] : List (List Char)), FileTree.IsName name := by simp
  obtain ⟨names, more, hreduced, hnames, hvalue⟩ := exists_foldl_reduce (isAbsolute path)
    (fun _ hsegment => of_mem_segments hsegment) hstack 0
  have hchain : ((components path).foldl reduce []).reverse =
      above (isAbsolute path) more ++ names.map .name := by
    rw [List.map_nil, List.nil_append, Nat.zero_add] at hreduced
    rw [components, List.foldl_append, foldl_reduce_start, hreduced, List.reverse_append,
      reverse_above, ← List.map_reverse, List.reverse_reverse]
  have hread : namesOf? (components (clean path)) =
      if isAbsolute path ∨ more = 0 then some names else none := by
    unfold clean
    rw [hchain]
    split
    next hempty =>
      -- nothing is left, and the path is written as `.`
      rw [← namesOf?_above, hempty]
      rfl
    next => rw [components_ofComponents hnames, namesOf?_above]
  rw [normalize?, hread, hvalue]

end SourceAtlas.Path
