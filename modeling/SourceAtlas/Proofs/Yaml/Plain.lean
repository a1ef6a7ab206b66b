import Mathlib.Data.List.Basic
import SourceAtlas.Proofs.Yaml.Arrival

/-!
# Words, gaps and plain scalars

A text is made of words and of the gaps between them, and the scanner reads a scalar word by word.
The main result is that a text which may be written plainly is read back up to the colon or the line
break after it (`plainScalar?_append`).
-/

namespace SourceAtlas.Yaml

/-! ### Words and gaps -/

/-- A text as words and the gaps between them, told apart by their characters. A word may be empty
where the text starts or ends with a gap. -/
inductive Chunks (inGap : Char → Bool) : List Char → Prop where
  | word {word : List Char} (hword : ∀ c ∈ word, inGap c = false) : Chunks inGap word
  | gap {word gap rest : List Char} (hword : ∀ c ∈ word, inGap c = false) (hne : gap ≠ [])
      (hgap : ∀ c ∈ gap, inGap c = true) (hhead : ∀ c ∈ rest.head?, inGap c = false)
      (hrest : Chunks inGap rest) : Chunks inGap (word ++ gap ++ rest)

/-- Every text is made of words and gaps. -/
theorem chunks (inGap : Char → Bool) (s : List Char) : Chunks inGap s := by
  induction s with
  | nil => exact .word (by simp)
  | cons c s ih =>
    cases hc : inGap c with
    | false =>
      -- the character belongs to the first word
      cases ih with
      | word hword => exact .word (List.forall_mem_cons.2 ⟨hc, hword⟩)
      | gap hword hne hgap hhead hrest =>
        exact .gap (List.forall_mem_cons.2 ⟨hc, hword⟩) hne hgap hhead hrest
    | true =>
      -- the character opens a gap, or belongs to the gap that the text starts with
      have hsingle : ∀ d ∈ [c], inGap d = true := by simpa using hc
      cases ih with
      | word hword =>
        exact @Chunks.gap inGap [] [c] s (by simp) (by simp) hsingle
          (fun d hd => hword d (List.mem_of_mem_head? hd)) (.word hword)
      | @gap word gap rest hword hne hgap hhead hrest =>
        cases word with
        | nil =>
          exact @Chunks.gap inGap [] (c :: gap) rest (by simp) (by simp)
            (List.forall_mem_cons.2 ⟨hc, hgap⟩) hhead hrest
        | cons d word =>
          exact @Chunks.gap inGap [] [c] (d :: word ++ gap ++ rest) (by simp) (by simp) hsingle
            (by simpa using hword d (by simp)) (.gap hword hne hgap hhead hrest)

namespace Gap

theorem read?_of_head {cs : List Char} (h : ∀ c ∈ cs.head?, isBlank c = false) (indent : Int)
    (gap : Gap) : read? indent gap cs = some (gap, cs) := by
  cases cs with
  | nil => rfl
  | cons c cs =>
    have hc : isGap c = false ∧ isBreak c = false := Bool.or_eq_false_iff.1 (h c rfl)
    rw [read?, hc.1, hc.2]
    · rfl
    · rintro rest rfl
      cases hc.2

theorem read?_space (indent : Int) (gap : Gap) (cs : List Char) :
    read? indent gap (' ' :: cs) = read? indent (gap.addBlank ' ') cs := by
  rw [read?]
  · simp [isGap]
  · rintro rest ⟨⟩

/-- Spaces before a line break belong to the gap. -/
theorem read?_spaces (indent : Int) {gap : Gap} (h : gap.broken = false) (n : Nat)
    (cs : List Char) : read? indent gap (pad n ++ cs) =
      read? indent { gap with spaces := gap.spaces ++ pad n } cs := by
  induction n generalizing gap with
  | zero => simp [pad]
  | succ n ih =>
    rw [pad, List.replicate_succ, List.cons_append, read?_space, addBlank, h]
    exact (ih rfl).trans (by simp [pad, List.append_assoc])

/-- Spaces after a line break are a margin. -/
theorem read?_margin (indent : Int) {gap : Gap} (h : gap.broken = true) (n : Nat)
    (cs : List Char) : read? indent gap (pad n ++ cs) =
      read? indent { gap with column := gap.column + n } cs := by
  induction n generalizing gap with
  | zero => simp [pad]
  | succ n ih =>
    rw [pad, List.replicate_succ, List.cons_append, read?_space, addBlank, h, if_pos rfl]
    refine (ih rfl).trans ?_
    show read? indent { gap with broken := true, column := gap.column + 1 + n } cs = _
    rw [Nat.add_assoc, Nat.add_comm 1 n]

theorem read?_newLine (indent : Int) (gap : Gap) (cs : List Char) :
    read? indent gap ('\n' :: cs) = read? indent (gap.addBreak ['\n']) cs := by
  rw [read?]
  · rfl
  · rintro rest ⟨⟩

end Gap

/-! ### Plain scalars -/

/-- What may come after a plain scalar, what is left of it then, and whether that is on a new
line. -/
inductive PlainEnd (indent : Int) : List Char → List Char → Bool → Prop where
  | colon {cs : List Char} (h : blankNext cs = true) : PlainEnd indent (':' :: cs) (':' :: cs) false
  | line {m : Nat} {content : List Char} (hm : (m : Int) < indent) (h : Ready content) :
      PlainEnd indent ('\n' :: (pad m ++ content)) content true

theorem PlainEnd.plainWord?_nil {indent : Int} {suffix rest : List Char} {broken : Bool}
    (h : PlainEnd indent suffix rest broken) :
    plainWord? false suffix = some ([], suffix) := by
  cases h with
  | colon h => simp [plainWord?, isBlank, isGap, isBreak, h]
  | line => simp [plainWord?, isBlank, isGap, isBreak]

theorem blankNext_append {cs : List Char} (h : blankNext cs = false) (ds : List Char) :
    blankNext (cs ++ ds) = false := by
  cases cs with
  | nil => cases h
  | cons c cs => exact h

/-- A word is read up to the gap or the mark after it, for it has no mark in it. -/
theorem plainWord?_append {word rest suffix : List Char} (hword : ∀ c ∈ word, isBlank c = false)
    {before : Char} (hmark : hasMark (before :: (word ++ rest)) = false)
    (htail : plainWord? false (rest ++ suffix) = some ([], rest ++ suffix)) :
    plainWord? false (word ++ (rest ++ suffix)) = some (word, rest ++ suffix) := by
  induction word generalizing before with
  | nil => exact htail
  | cons c word ih =>
    rw [List.forall_mem_cons] at hword
    simp only [List.cons_append, hasMark, Bool.or_eq_false_iff] at hmark
    have hcolon : (c == ':' && blankNext (word ++ (rest ++ suffix))) = false := by
      rcases Bool.and_eq_false_iff.1 hmark.1.1 with hc | hnext
      · rw [hc, Bool.false_and]
      · rw [← List.append_assoc, blankNext_append hnext, Bool.and_false]
    rw [List.cons_append, plainWord?, ih hword.2 hmark.2]
    simp [hword.1, hcolon]

/-- What is left of a text without marks has none either. -/
theorem hasMark_of_append {cs : List Char} {c : Char} {ds : List Char}
    (h : hasMark (cs ++ c :: ds) = false) : hasMark (c :: ds) = false := by
  induction cs with
  | nil => exact h
  | cons a cs ih =>
    obtain ⟨b, rest, hrest⟩ := List.exists_cons_of_ne_nil (List.append_ne_nil_of_right_ne_nil cs
      (List.cons_ne_nil c ds))
    rw [List.cons_append, hrest, hasMark, Bool.or_eq_false_iff] at h
    exact ih (hrest ▸ h.2)

/-- A word of a plain scalar, and what is done about what comes after it. -/
theorem plainWords?_succ {indent : Int} {cs word rest : List Char} (hhash : cs.head? ≠ some '#')
    (hread : plainWord? false cs = some (word, rest)) (hne : word ≠ []) (bound : Nat)
    (text spaces : List Char) :
    plainWords? false indent (bound + 1) text { spaces } cs =
      if rest.isEmpty || !blankNext rest then some ⟨text ++ spaces ++ word, rest, false⟩
      else match Gap.read? indent {} rest with
        | none => none
        | some (gap, rest) =>
          if gap.broken && (gap.column : Int) < indent then
            some ⟨text ++ spaces ++ word, rest, true⟩
          else plainWords? false indent bound (text ++ spaces ++ word) gap rest := by
  obtain ⟨c, word, rfl⟩ := List.exists_cons_of_ne_nil hne
  rw [plainWords?, if_neg (by simpa [Gap.atLineStart] using hhash), hread]
  rfl

theorem PlainEnd.plainWords?_word {indent : Int} {suffix left word : List Char} {broken : Bool}
    (h : PlainEnd indent suffix left broken) (hhash : (word ++ suffix).head? ≠ some '#')
    (hread : plainWord? false (word ++ suffix) = some (word, suffix)) (hne : word ≠ [])
    (bound : Nat) (text spaces : List Char) :
    plainWords? false indent (bound + 1) text { spaces } (word ++ suffix) =
      some ⟨text ++ spaces ++ word, left, broken⟩ := by
  rw [plainWords?_succ hhash hread hne]
  cases h with
  | colon h => rfl
  | @line m _ hm h =>
    have hgap : Gap.read? indent {} ('\n' :: (pad m ++ left)) =
        some ({ firstBreak := ['\n'], broken := true, column := m }, left) := by
      rw [Gap.read?_newLine, Gap.read?_margin _ rfl, Gap.read?_of_head fun c hc => (h c hc).1]
      simp [Gap.addBreak]
    rw [hgap]
    simp [blankNext, isBlank, isBreak, hm]

theorem eq_pad {cs : List Char} (h : ∀ c ∈ cs, c = ' ') : cs = pad cs.length :=
  List.eq_replicate_of_mem h

/-- What is left of a text that may be written plainly, after the character before it. -/
structure PlainPart (before : Char) (s : List Char) : Prop where
  ne_nil : s ≠ []
  head : ∀ c ∈ s.head?, isBlank c = false ∧ c ≠ '#'
  last : ∀ c ∈ s.getLast?, isBlank c = false
  space : ∀ c ∈ s, isBlank c = true → c = ' '
  mark : hasMark (before :: s) = false

namespace PlainPart

variable {before : Char} {word gap rest : List Char}

theorem hash {s : List Char} (h : PlainPart before s) (suffix : List Char) :
    (s ++ suffix).head? ≠ some '#' := by
  rw [List.head?_append_of_ne_nil _ h.ne_nil]
  exact fun hhead => (h.head _ hhead).2 rfl

theorem gap_eq_pad (h : PlainPart before (word ++ gap ++ rest))
    (hgap : ∀ c ∈ gap, isBlank c = true) : gap = pad gap.length :=
  eq_pad fun c hc => h.space c (by simp [hc]) (hgap c hc)

theorem word_ne_nil (h : PlainPart before (word ++ gap ++ rest)) (hne : gap ≠ [])
    (hgap : ∀ c ∈ gap, isBlank c = true) : word ≠ [] := by
  rintro rfl
  obtain ⟨c, gap, rfl⟩ := List.exists_cons_of_ne_nil hne
  have hc := hgap c (by simp)
  rw [(h.head c rfl).1] at hc
  cases hc

/-- After a gap there is more of the text, and it may be written plainly. -/
theorem afterGap (h : PlainPart before (word ++ gap ++ rest)) (hne : gap ≠ [])
    (hgap : ∀ c ∈ gap, isBlank c = true) (hhead : ∀ c ∈ rest.head?, isBlank c = false) :
    PlainPart ' ' rest := by
  have hrest : rest ≠ [] := by
    rintro rfl
    have hlast := h.last (gap.getLast hne) (by
      rw [List.append_nil, List.getLast?_append_of_ne_nil _ hne, List.getLast?_eq_some_getLast hne]
      rfl)
    rw [hgap _ (List.getLast_mem hne)] at hlast
    cases hlast
  have hmark : hasMark (' ' :: rest) = false := by
    obtain ⟨n, hn⟩ := Nat.exists_eq_succ_of_ne_zero (Nat.ne_of_gt (List.length_pos_iff.2 hne))
    have hpad := h.gap_eq_pad hgap
    rw [hn, pad, List.replicate_succ'] at hpad
    refine @hasMark_of_append (before :: word ++ List.replicate n ' ') ' ' rest ?_
    simpa [hpad] using h.mark
  refine ⟨hrest, fun c hc => ⟨hhead c hc, ?_⟩, ?_, fun c hc => h.space c (by simp [hc]), hmark⟩
  · rintro rfl
    obtain ⟨d, rest, rfl⟩ := List.exists_cons_of_ne_nil hrest
    cases hc
    simp [hasMark, isBlank, isGap] at hmark
  · have hlast := h.last
    rwa [List.getLast?_append_of_ne_nil _ hrest] at hlast

end PlainPart

/-- The words of a plain scalar are read up to what ends it. -/
theorem plainWords?_append {indent : Int} {suffix left : List Char} {broken : Bool}
    (hend : PlainEnd indent suffix left broken) {s : List Char} (hchunks : Chunks isBlank s)
    {before : Char} (h : PlainPart before s) (text spaces : List Char) {bound : Nat}
    (hbound : s.length < bound) :
    plainWords? false indent bound text { spaces } (s ++ suffix) =
      some ⟨text ++ spaces ++ s, left, broken⟩ := by
  obtain ⟨bound, rfl⟩ := Nat.exists_eq_add_one_of_ne_zero (Nat.ne_zero_of_lt hbound)
  induction hchunks generalizing before text spaces bound with
  | @word word hword =>
    have hread := @plainWord?_append word [] suffix hword before (by simpa using h.mark)
      hend.plainWord?_nil
    exact hend.plainWords?_word (h.hash suffix) hread h.ne_nil bound text spaces
  | @gap word gap rest hword hne hgap hhead hrest ih =>
    have hpart := h.afterGap hne hgap hhead
    have hnext : blankNext (gap ++ rest ++ suffix) = true := by
      obtain ⟨c, gap, rfl⟩ := List.exists_cons_of_ne_nil hne
      exact hgap c (by simp)
    have hread : plainWord? false (word ++ (gap ++ rest ++ suffix)) =
        some (word, gap ++ rest ++ suffix) := by
      refine @plainWord?_append word (gap ++ rest) suffix hword before ?_ ?_
      · rw [← List.append_assoc]
        exact h.mark
      · obtain ⟨c, gap, rfl⟩ := List.exists_cons_of_ne_nil hne
        simp [plainWord?, hgap c (by simp)]
    have hskip : Gap.read? indent {} (gap ++ rest ++ suffix) =
        some ({ spaces := gap }, rest ++ suffix) := by
      rw [h.gap_eq_pad hgap, List.append_assoc, Gap.read?_spaces _ rfl, Gap.read?_of_head]
      · rfl
      · rwa [List.head?_append_of_ne_nil _ hpart.ne_nil]
    have hlength : rest.length < bound := by
      have := List.length_pos_iff.2 hne
      simp only [List.length_append] at hbound
      omega
    obtain ⟨bound, rfl⟩ := Nat.exists_eq_add_one_of_ne_zero (Nat.ne_zero_of_lt hlength)
    have hhash := h.hash suffix
    simp only [List.append_assoc] at hhash hread hnext hskip ⊢
    rw [plainWords?_succ hhash hread (h.word_ne_nil hne hgap), if_neg (by simp [hne, hnext]), hskip]
    refine (ih hpart (text ++ spaces ++ word) gap bound hlength).trans ?_
    simp only [List.append_assoc]

/-- What may stand in a text: of the blanks that are written as they are, only a space stays on its
line. -/
theorem eq_space_of_isPrintable {c : Char} (hc : isPrintable c = true) (hgap : isGap c = true) :
    c = ' ' := by
  rcases Bool.or_eq_true_iff.1 hgap with h | h
  · exact eq_of_beq h
  · rw [eq_of_beq h] at hc
    exact absurd hc (by decide)

theorem plainPart_of_plainAllowed {s : List Char} (hs : plainAllowed s = true) (hne : s ≠ []) :
    PlainPart 'x' s := by
  simp only [plainAllowed, hasOuterBlank, hasUnprintable, Bool.and_eq_true, Bool.not_eq_true'] at hs
  obtain ⟨⟨⟨⟨houter, hprintable⟩, hbreak⟩, hmarked⟩, hmark⟩ := hs
  rw [Bool.or_eq_false_iff, Option.any_eq_false, Option.any_eq_false] at houter
  rw [List.any_eq_false] at hprintable hbreak
  have hspace : ∀ c ∈ s, isBlank c = true → c = ' ' := by
    intro c hc hblank
    rcases Bool.or_eq_true_iff.1 hblank with hgap | hline
    · exact eq_space_of_isPrintable (by simpa using hprintable c hc) hgap
    · exact absurd hline (hbreak c hc)
  have hinner : ∀ c ∈ s, (c == ' ' || isBreak c) = false → isBlank c = false := by
    intro c hc houter
    rw [← Bool.not_eq_true]
    intro hblank
    rw [hspace c hc hblank] at houter
    cases houter
  obtain ⟨c, rest, rfl⟩ := List.exists_cons_of_ne_nil hne
  simp only [startsMarked, Bool.or_eq_false_iff] at hmarked
  refine ⟨hne, ?_, fun c hc => hinner c (List.mem_of_getLast? hc) (houter.2 c hc), hspace, ?_⟩
  · rintro d ⟨⟩
    refine ⟨hinner c (by simp) (houter.1 c rfl), ?_⟩
    rintro rfl
    exact absurd hmarked.2.1 (by decide)
  · have hcolon : (c == ':' && blankNext rest) = false := by
      have h := hmarked.2.2
      cases hc : c == ':' with
      | false => rfl
      | true => simpa [hc] using h
    rw [hasMark, hcolon, hmark]
    rfl

/-- A text that may be written plainly is read back, up to what ends it. -/
theorem plainScalar?_append {s : List Char} (hs : plainAllowed s = true) (hne : s ≠ [])
    {indent : Int} {suffix left : List Char} {broken : Bool}
    (hend : PlainEnd indent suffix left broken) :
    plainScalar? false indent (s ++ suffix) = some ⟨s, left, broken⟩ := by
  refine (plainWords?_append hend (chunks isBlank s) (plainPart_of_plainAllowed hs hne) [] [] ?_).trans
    (by simp)
  simp only [List.length_append]
  omega

end SourceAtlas.Yaml
