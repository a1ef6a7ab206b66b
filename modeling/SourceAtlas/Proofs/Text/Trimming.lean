import Mathlib.Data.List.DropRight
import SourceAtlas.Proofs.Text.Segments

/-!
# Trimming

Trimming removes blanks from the ends of a text. The same can be done with the empty lines of a list
of lines, and the two agree: if the lines themselves are trimmed, the text that they make up is
trimmed by removing the empty lines at its ends (`trim_unlines`).
-/

namespace SourceAtlas.Text

/-! ### The ends of a list -/

section Ends

variable {α : Type} {p : α → Bool} {l : List α}

/-- Whether neither end of a list satisfies a property. -/
def EndsClear (p : α → Bool) (l : List α) : Prop :=
  l.head?.any p = false ∧ l.getLast?.any p = false

instance (p : α → Bool) (l : List α) : Decidable (EndsClear p l) :=
  inferInstanceAs (Decidable (_ ∧ _))

/-- A list without the elements at its ends that satisfy a property. -/
def stripEnds (p : α → Bool) (l : List α) : List α := (l.dropWhile p).rdropWhile p

theorem dropWhile_of_head? (h : l.head?.any p = false) : l.dropWhile p = l := by
  cases l with
  | nil => rfl
  | cons a l => exact List.dropWhile_cons_of_neg (by simpa using h)

/-- A first part of a list whose elements satisfy a property ends where the property fails. -/
theorem takeWhile_append_stop {rest : List α} (hl : ∀ a ∈ l, p a = true)
    (hrest : rest.head?.any p = false) : (l ++ rest).takeWhile p = l := by
  rw [List.takeWhile_append_of_pos hl]
  cases rest with
  | nil => rw [List.takeWhile_nil, List.append_nil]
  | cons a rest =>
    have ha : ¬ p a = true := by simpa using hrest
    rw [List.takeWhile_cons_of_neg ha, List.append_nil]

theorem dropWhile_append_stop {rest : List α} (hl : ∀ a ∈ l, p a = true)
    (hrest : rest.head?.any p = false) : (l ++ rest).dropWhile p = rest := by
  rw [List.dropWhile_append_of_pos hl, dropWhile_of_head? hrest]

theorem rdropWhile_of_getLast? (h : l.getLast?.any p = false) : l.rdropWhile p = l := by
  have hreverse : l.reverse.dropWhile p = l.reverse :=
    dropWhile_of_head? (by rwa [List.head?_reverse])
  rw [List.rdropWhile, hreverse, List.reverse_reverse]

theorem any_head?_dropWhile (p : α → Bool) (l : List α) : (l.dropWhile p).head?.any p = false := by
  have hhead := List.head?_dropWhile_not p l
  cases hfirst : (l.dropWhile p).head? with
  | none => rfl
  | some a => simpa [hfirst] using hhead

/-- Nothing is left to remove. -/
theorem endsClear_stripEnds (p : α → Bool) (l : List α) : EndsClear p (stripEnds p l) := by
  constructor
  · -- what is left starts like the list without its first elements
    obtain ⟨removed, hremoved⟩ := List.rdropWhile_prefix p (l.dropWhile p)
    have hhead := any_head?_dropWhile p l
    rw [← hremoved] at hhead
    unfold stripEnds
    cases hrest : (l.dropWhile p).rdropWhile p with
    | nil => rfl
    | cons a rest => simpa [hrest] using hhead
  · rw [stripEnds, List.rdropWhile, List.getLast?_reverse]
    exact any_head?_dropWhile p _

theorem mem_of_mem_stripEnds {a : α} (h : a ∈ stripEnds p l) : a ∈ l :=
  (List.dropWhile_suffix p).subset ((List.rdropWhile_prefix p _).subset h)

/-- What is removed does not matter. -/
theorem stripEnds_append {before after : List α} (h : EndsClear p l)
    (hbefore : ∀ a ∈ before, p a = true) (hafter : ∀ a ∈ after, p a = true) :
    stripEnds p (before ++ l ++ after) = l := by
  by_cases hne : l = []
  · subst hne
    have hnone : (before ++ [] ++ after).dropWhile p = [] := by
      rw [List.dropWhile_eq_nil_iff, List.append_nil]
      intro a ha
      exact (List.mem_append.1 ha).elim (hbefore a) (hafter a)
    rw [stripEnds, hnone, List.rdropWhile_nil]
  · have hstart : (before ++ l ++ after).dropWhile p = l ++ after := by
      rw [List.append_assoc, List.dropWhile_append_of_pos hbefore]
      exact dropWhile_of_head? (by rw [List.head?_append_of_ne_nil _ hne]; exact h.1)
    have hend : (l ++ after).reverse.dropWhile p = l.reverse := by
      rw [List.reverse_append,
        List.dropWhile_append_of_pos fun a ha => hafter a (List.mem_reverse.1 ha)]
      exact dropWhile_of_head? (by rw [List.head?_reverse]; exact h.2)
    rw [stripEnds, hstart, List.rdropWhile, hend, List.reverse_reverse]

theorem EndsClear.stripEnds_eq (h : EndsClear p l) : stripEnds p l = l := by
  rw [stripEnds, dropWhile_of_head? h.1, rdropWhile_of_getLast? h.2]

end Ends

/-! ### Trimmed texts -/

/-- Whether a text neither starts nor ends with a blank. -/
def IsTrimmed (cs : List Char) : Prop := EndsClear isBlank cs

instance : DecidablePred IsTrimmed := fun cs => inferInstanceAs (Decidable (EndsClear isBlank cs))

theorem isTrimmed_trim (cs : List Char) : IsTrimmed (trim cs) := endsClear_stripEnds isBlank cs

theorem IsTrimmed.trim_eq {cs : List Char} (h : IsTrimmed cs) : trim cs = cs :=
  EndsClear.stripEnds_eq h

/-- Nothing is left of a text exactly if all its characters are blank. -/
theorem trim_eq_nil_iff {cs : List Char} : trim cs = [] ↔ ∀ c ∈ cs, isBlank c = true := by
  constructor
  · intro h
    have hblank : ∀ c ∈ cs.dropWhile isBlank, isBlank c = true := List.rdropWhile_eq_nil_iff.1 h
    have hnil : cs.dropWhile isBlank = [] := by
      by_contra hne
      obtain ⟨c, rest, hrest⟩ := List.exists_cons_of_ne_nil hne
      have hhead := any_head?_dropWhile isBlank cs
      have hc := hblank c (by simp [hrest])
      simp [hrest, hc] at hhead
    exact List.dropWhile_eq_nil_iff.1 hnil
  · intro h
    rw [trim, trimStart, List.dropWhile_eq_nil_iff.2 h]
    rfl

theorem trim_space {cs : List Char} (h : IsTrimmed cs) : trim (' ' :: cs) = cs := by
  have hspace : ∀ c ∈ [' '], isBlank c = true := List.all_eq_true.1 (by decide)
  have hstrip : stripEnds isBlank ([' '] ++ cs ++ []) = cs := stripEnds_append h hspace (by simp)
  rwa [List.append_nil] at hstrip

theorem isTrimmed_cons_append {c : Char} {rest : List Char} (cs : List Char)
    (hc : isBlank c = false) (hne : rest ≠ []) (hrest : rest.getLast?.any isBlank = false) :
    IsTrimmed (c :: (cs ++ rest)) := by
  refine ⟨hc, ?_⟩
  rwa [← List.cons_append, List.getLast?_append_of_ne_nil _ hne]

theorem isBlank_of_isAlpha {c : Char} (h : c.isAlpha = true) : isBlank c = false := by
  have hrange : 65 ≤ c.toNat ∧ c.toNat ≤ 90 ∨ 97 ≤ c.toNat ∧ c.toNat ≤ 122 := by
    rcases (Bool.or_eq_true _ _).mp h with hupper | hlower
    · have hval : 'A'.val ≤ c.val ∧ c.val ≤ 'Z'.val := of_decide_eq_true hupper
      exact .inl hval
    · obtain ⟨hfrom, hto⟩ := (Bool.and_eq_true _ _).mp hlower
      exact .inr ⟨of_decide_eq_true hfrom, of_decide_eq_true hto⟩
  simp only [isBlank, Bool.or_eq_false_iff, Bool.and_eq_false_iff, decide_eq_false_iff_not,
    beq_eq_false_iff_ne]
  omega

/-- Trimming keeps a prefix that does not end with a blank. -/
theorem prefix_trim_iff {pre cs : List Char} (hlast : pre.getLast?.any isBlank = false)
    (hhead : cs.head?.any isBlank = false) : pre <+: trim cs ↔ pre <+: cs := by
  have htrim : trim cs = cs.rdropWhile isBlank := by
    rw [trim, trimStart, dropWhile_of_head? hhead]
    rfl
  rw [htrim]
  constructor
  · intro h
    exact h.trans (List.rdropWhile_prefix isBlank cs)
  · rintro ⟨rest, rfl⟩
    have hpre : pre.reverse.dropWhile isBlank = pre.reverse :=
      dropWhile_of_head? (by rwa [List.head?_reverse])
    rw [List.rdropWhile, List.reverse_append, List.dropWhile_append]
    split
    next => rw [hpre, List.reverse_reverse]
    next => rw [List.reverse_append, List.reverse_reverse]; exact List.prefix_append _ _

/-! ### Lines -/

section Lines

variable {parts : List (List Char)}

theorem trimStart_unlines (h : ∀ part ∈ parts, part.head?.any isBlank = false) :
    trimStart (unlines parts) = unlines (parts.dropWhile List.isEmpty) := by
  induction parts with
  | nil => rfl
  | cons part parts ih =>
    cases part with
    | nil =>
      have hrest := ih fun part hpart => h part (List.mem_cons_of_mem _ hpart)
      rw [List.dropWhile_cons_of_pos rfl, ← hrest]
      cases parts with
      | nil => rfl
      | cons next parts => exact List.dropWhile_cons_of_pos (by decide)
    | cons c cs =>
      have hc : isBlank c = false := by simpa using h _ List.mem_cons_self
      rw [List.dropWhile_cons_of_neg (by simp)]
      refine dropWhile_of_head? ?_
      cases parts <;> simpa [unlines, List.intercalate_cons_cons] using hc

theorem reverse_unlines (parts : List (List Char)) :
    (unlines parts).reverse = unlines (parts.reverse.map List.reverse) := by
  induction parts with
  | nil => rfl
  | cons part parts ih =>
    cases parts with
    | nil => simp [unlines]
    | cons next parts =>
      have hsplit : unlines (part :: next :: parts) = part ++ ['\n'] ++ unlines (next :: parts) :=
        List.intercalate_cons_cons
      have hne : (next :: parts).reverse.map List.reverse ≠ [] := by simp
      have hlast : (part :: next :: parts).reverse.map List.reverse =
          (next :: parts).reverse.map List.reverse ++ [part.reverse] := by simp
      rw [hsplit, List.reverse_append, List.reverse_append, ih, hlast]
      exact (intercalate_concat hne part.reverse).symm

theorem trimEnd_unlines (h : ∀ part ∈ parts, part.getLast?.any isBlank = false) :
    trimEnd (unlines parts) = unlines (parts.rdropWhile List.isEmpty) := by
  have hparts : ∀ part ∈ parts.reverse.map List.reverse, part.head?.any isBlank = false := by
    intro part hpart
    obtain ⟨line, hline, rfl⟩ := List.mem_map.1 hpart
    rw [List.head?_reverse]
    exact h line (List.mem_reverse.1 hline)
  have hempty : List.isEmpty ∘ List.reverse = (List.isEmpty : List Char → Bool) := by
    funext line
    cases line <;> simp
  have hstart := trimStart_unlines hparts
  rw [List.dropWhile_map, hempty] at hstart
  calc trimEnd (unlines parts) = (trimStart (unlines parts).reverse).reverse := rfl
    _ = (unlines ((parts.reverse.dropWhile List.isEmpty).map List.reverse)).reverse := by
        rw [reverse_unlines, hstart]
    _ = unlines (parts.rdropWhile List.isEmpty) := by
        rw [reverse_unlines, List.rdropWhile, ← List.map_reverse, List.map_map]
        simp

/-- The blanks at the ends of a text of trimmed lines are those of empty lines. -/
theorem trim_unlines (h : ∀ part ∈ parts, IsTrimmed part) :
    trim (unlines parts) = unlines (stripEnds List.isEmpty parts) := by
  rw [trim, trimStart_unlines fun part hpart => (h part hpart).1, trimEnd_unlines]
  · rfl
  · intro part hpart
    exact (h part ((List.dropWhile_suffix _).subset hpart)).2

/-- A text of trimmed lines, none of them empty, is trimmed. -/
theorem isTrimmed_unlines
    (h : ∀ part ∈ parts, part ≠ [] ∧ IsTrimmed part) : IsTrimmed (unlines parts) := by
  have hends : EndsClear List.isEmpty parts := by
    constructor
    · cases parts with
      | nil => rfl
      | cons part parts => simpa using (h part List.mem_cons_self).1
    · cases hlast : parts.getLast? with
      | none => rfl
      | some part => simpa using (h part (List.mem_of_getLast? hlast)).1
  have htrim : trim (unlines parts) = unlines parts := by
    rw [trim_unlines fun part hpart => (h part hpart).2, hends.stripEnds_eq]
  rw [← htrim]
  exact isTrimmed_trim _

/-- The first line of a text, and the other ones after their line breaks. -/
theorem unlines_cons (part : List Char) (parts : List (List Char)) :
    unlines (part :: parts) = part ++ parts.flatMap ('\n' :: ·) := by
  induction parts generalizing part with
  | nil => simp [unlines]
  | cons next parts ih =>
    have hsplit : unlines (part :: next :: parts) = part ++ ['\n'] ++ unlines (next :: parts) :=
      List.intercalate_cons_cons
    rw [hsplit, ih next, List.flatMap_cons]
    simp

theorem unlines_cons_append (lead part : List Char) (parts : List (List Char)) :
    unlines ((lead ++ part) :: parts) = lead ++ unlines (part :: parts) :=
  intercalate_cons_append ['\n'] lead part parts

theorem unlines_concat_append (parts : List (List Char)) (part rest : List Char) :
    unlines (parts ++ [part ++ rest]) = unlines (parts ++ [part]) ++ rest := by
  by_cases hne : parts = []
  · simp [unlines, hne]
  · simp [unlines, intercalate_concat hne]

/-- The start of the first line and the end of the last one stand around all the rest. -/
theorem unlines_enclosed (start lead finish : List Char) (parts : List (List Char)) :
    unlines ([start] ++ parts ++ [lead ++ finish]) =
      start ++ (unlines ([[]] ++ parts ++ [lead]) ++ finish) := by
  have hstart := unlines_cons_append start [] (parts ++ [lead ++ finish])
  rw [List.append_nil] at hstart
  rw [← unlines_concat_append]
  exact hstart

end Lines

/-! ### Delimiters -/

theorem dropPrefixes_suffix (pre cs : List Char) : dropPrefixes pre cs <:+ cs := by
  fun_induction dropPrefixes pre cs with
  | case1 cs hstarts ih => exact ih.trans (List.drop_suffix _ _)
  | case2 cs hstarts => exact List.suffix_refl cs

theorem dropPrefixes_eq_self {pre cs : List Char} (h : ¬ pre <+: cs) :
    dropPrefixes pre cs = cs := by
  rw [dropPrefixes, dif_neg fun hstarts => h hstarts.2]

theorem dropPrefixes_append {pre cs : List Char} (hne : pre ≠ []) (h : ¬ pre <+: cs) :
    dropPrefixes pre (pre ++ cs) = cs := by
  rw [dropPrefixes, dif_pos ⟨hne, List.prefix_append pre cs⟩, List.drop_left, dropPrefixes_eq_self h]

theorem dropSuffixes_eq_self {suf cs : List Char} (h : ¬ suf <:+ cs) :
    dropSuffixes suf cs = cs := by
  rw [dropSuffixes, dropPrefixes_eq_self (by rwa [List.reverse_prefix]), List.reverse_reverse]

theorem dropSuffixes_append {suf cs : List Char} (hne : suf ≠ []) (h : ¬ suf <:+ cs) :
    dropSuffixes suf (cs ++ suf) = cs := by
  rw [dropSuffixes, List.reverse_append, dropPrefixes_append (by simpa using hne)
    (by rwa [List.reverse_prefix]), List.reverse_reverse]

end SourceAtlas.Text
