import SourceAtlas.Proofs.Yaml.Quoted

/-!
# Literal blocks

A text of several lines is written as a block of indented lines. Its marks say what becomes of the
line breaks at its end and, if its first line cannot show it, how far the lines are indented. The
main result is that the block is read back up to the line after it (`blockScalar?_literalBlock`).
-/

namespace SourceAtlas.Yaml

/-! ### Marks -/

/-- What becomes of the line breaks at the end of a text that is written as a literal block. -/
def chompingOf (s : List Char) : Chomping :=
  match s.reverse with
  | [] => .strip
  | [last] => if isBreak last then .keep else .strip
  | last :: before :: _ =>
    if !isBreak last then .strip else if isBreak before then .keep else .clip

/-- How much further the lines of a literal block are indented, if it has to be said. -/
def incrementOf (s : List Char) : Nat := if s.head?.any fun c => c == ' ' || isBreak c then 2 else 0

theorem blockMarks?_literalMarks (s rest : List Char) :
    blockMarks? ((literalMarks s).tail ++ '\n' :: rest) =
      some (chompingOf s, incrementOf s, '\n' :: rest) := by
  rw [literalMarks, chompingOf, incrementOf]
  cases s.head?.any fun c => c == ' ' || isBreak c <;> cases s.reverse with
  | nil => rfl
  | cons last others =>
    cases others with
    | nil => cases hl : isBreak last <;> simp [hl] <;> rfl
    | cons before others =>
      cases hl : isBreak last <;> cases hb : isBreak before <;> simp [hl, hb] <;> rfl

theorem endOfLine?_newLine (rest : List Char) : endOfLine? ('\n' :: rest) = some rest := rfl

/-! ### Margins -/

theorem blockMargin?_pad {indent column k : Nat} (h : indent = 0 ∨ column + k ≤ indent) (widest : Nat)
    (breaks cs : List Char) :
    blockMargin? indent column widest breaks (pad k ++ cs) =
      blockMargin? indent (column + k) widest breaks cs := by
  induction k generalizing column with
  | zero => rfl
  | succ k ih =>
    have hmargin : (indent == 0 || decide (column < indent)) = true := by
      rcases h with h | h
      · simp [h]
      · simp only [Bool.or_eq_true, decide_eq_true_eq]
        omega
    rw [pad, List.replicate_succ, List.cons_append, blockMargin?, hmargin]
    · simp only [Bool.true_and, beq_self_eq_true, if_true]
      refine (ih (h.imp_right fun h => by omega)).trans ?_
      rw [Nat.add_right_comm, Nat.add_assoc]
    · rintro rest ⟨⟩

theorem lineBreak?_break {b : Char} (hprintable : isPrintable b = true) (hbreak : isBreak b = true)
    (rest : List Char) : lineBreak? (b :: rest) = some ([b], rest) := by
  rcases break_cases hprintable hbreak with rfl | h
  · rfl
  · simp only [isSeparator, Bool.or_eq_true, beq_iff_eq] at h
    rcases h with rfl | rfl <;> rfl

theorem blockMargin?_break {b : Char} (hprintable : isPrintable b = true)
    (hbreak : isBreak b = true) (indent column widest : Nat) (breaks cs : List Char) :
    blockMargin? indent column widest breaks (b :: cs) =
      blockMargin? indent 0 (max widest column) (breaks ++ [b]) cs := by
  have hb : b ≠ '\r' ∧ (b == ' ') = false ∧ (b == '\t') = false ∧
      (if b == '\u2028' || b == '\u2029' then [b] else ['\n']) = [b] := by
    rcases break_cases hprintable hbreak with rfl | h
    · decide
    · simp only [isSeparator, Bool.or_eq_true, beq_iff_eq] at h
      rcases h with rfl | rfl <;> decide
  rw [blockMargin?]
  · simp only [hb, hbreak, Bool.and_false, Bool.false_eq_true, if_false, if_true]
  · rintro rest rfl
    exact absurd rfl hb.1

/-- Empty lines in front of a margin. -/
theorem blockMargin?_breaks {breaks : List Char} (hprintable : ∀ c ∈ breaks, isPrintable c = true)
    (hbreak : ∀ c ∈ breaks, isBreak c = true) (indent widest : Nat) (before cs : List Char) :
    blockMargin? indent 0 widest before (breaks ++ cs) =
      blockMargin? indent 0 widest (before ++ breaks) cs := by
  induction breaks generalizing before with
  | nil => simp
  | cons b breaks ih =>
    rw [List.forall_mem_cons] at hprintable hbreak
    rw [List.cons_append, blockMargin?_break hprintable.1 hbreak.1, Nat.max_zero,
      ih hprintable.2 hbreak.2, List.append_assoc, List.singleton_append]

/-- The margin ends where it is full, or at a character that is no blank. -/
theorem blockMargin?_stop {indent column : Nat} {cs : List Char}
    (h : ∀ c ∈ cs.head?, isBreak c = false ∧ (isGap c = true → indent ≠ 0 ∧ indent ≤ column))
    (widest : Nat) (breaks : List Char) :
    blockMargin? indent column widest breaks cs =
      some ⟨column, max widest column, breaks, cs⟩ := by
  cases cs with
  | nil => rfl
  | cons c cs =>
    obtain ⟨hbreak, hfull⟩ := h c rfl
    have hr : c ≠ '\r' := by
      rintro rfl
      cases hbreak
    have hblank : ∀ d : Char, isGap d = true →
        ((indent == 0 || decide (column < indent)) && c == d) = false := by
      intro d hd
      rw [Bool.and_eq_false_iff]
      by_cases hc : c == d
      · rw [eq_of_beq hc] at hfull
        obtain ⟨hne, hle⟩ := hfull hd
        left
        simp only [Bool.or_eq_false_iff, beq_eq_false_iff_ne, decide_eq_false_iff_not]
        exact ⟨hne, by omega⟩
      · exact .inr (by simpa using hc)
    rw [blockMargin?]
    · simp only [hblank ' ' rfl, hblank '\t' rfl, hbreak, Bool.false_eq_true, if_false]
    · rintro rest rfl
      exact absurd rfl hr

/-! ### Lines -/

theorem blockLines?_line {line : List Char} (hline : ∀ c ∈ line, isBreak c = false) {b : Char}
    (hprintable : isPrintable b = true) (hbreak : isBreak b = true) (chomping : Chomping)
    (indent bound widest : Nat) (draft : BlockDraft) (breaks after : List Char) :
    blockLines? false chomping indent (bound + 1) draft
        ⟨indent, widest, breaks, line ++ b :: after⟩ =
      (blockMargin? indent 0 0 [] after).bind
        (blockLines? false chomping indent bound
          ⟨draft.text ++ draft.lastBreak ++ breaks ++ line, [b], line.head?.any isGap⟩) := by
  have hneg : ∀ c ∈ line, (!isBreak c) = true := fun c hc => by rw [hline c hc]; rfl
  have htake : (line ++ b :: after).takeWhile (!isBreak ·) = line := by
    rw [List.takeWhile_append_of_pos hneg, List.takeWhile_cons_of_neg (by simp [hbreak]),
      List.append_nil]
  have hdrop : (line ++ b :: after).dropWhile (!isBreak ·) = b :: after := by
    rw [List.dropWhile_append_of_pos hneg, List.dropWhile_cons_of_neg (by simp [hbreak])]
  rw [blockLines?, if_neg (by simp)]
  simp only [htake, hdrop, lineBreak?_break hprintable hbreak, Option.getD_some]
  cases blockMargin? indent 0 0 [] after <;> rfl

theorem blockLines?_end {indent k : Nat} (h : k ≠ indent) (chomping : Chomping)
    (bound widest : Nat) (draft : BlockDraft) (breaks content : List Char) :
    blockLines? false chomping indent (bound + 1) draft ⟨k, widest, breaks, content⟩ =
      some (draft.finish chomping breaks, content) := by
  rw [blockLines?, if_pos (by simp [h])]

/-- The line break that ends a literal block, unless its text does. -/
def literalEnd (s : List Char) : List Char := if s.getLast?.any isBreak then [] else ['\n']

theorem literalEnd_append {rest : List Char} (hne : rest ≠ []) (before : List Char) :
    literalEnd (before ++ rest) = literalEnd rest := by
  rw [literalEnd, literalEnd, List.getLast?_append_of_ne_nil _ hne]

theorem chompingOf_strip {last : Char} (h : isBreak last = false) (s : List Char) :
    chompingOf (s ++ [last]) = .strip := by
  rw [chompingOf, List.reverse_concat]
  cases s.reverse <;> simp [h]

theorem chompingOf_break {last : Char} (h : isBreak last = true) (before : Char) (s : List Char) :
    chompingOf (s ++ [before, last]) = if isBreak before then .keep else .clip := by
  rw [chompingOf, List.reverse_append]
  simp [h]

/-- What becomes of the last line breaks does not depend on the lines before. -/
theorem chompingOf_append {rest : List Char} (hne : rest ≠ [])
    (hhead : ∀ c ∈ rest.head?, isBreak c = false) (before : List Char) :
    chompingOf (before ++ rest) = chompingOf rest := by
  obtain ⟨rest, last, rfl⟩ := (List.eq_nil_or_concat' rest).resolve_left hne
  cases hlast : isBreak last with
  | false => rw [← List.append_assoc, chompingOf_strip hlast, chompingOf_strip hlast]
  | true =>
    have hrest : rest ≠ [] := by
      rintro rfl
      rw [hhead last rfl] at hlast
      cases hlast
    obtain ⟨rest, second, rfl⟩ := (List.eq_nil_or_concat' rest).resolve_left hrest
    rw [List.append_assoc, ← List.append_assoc before]
    exact (chompingOf_break hlast second (before ++ rest)).trans
      (chompingOf_break hlast second rest).symm

/-- A last line without a line break. -/
theorem literal_lastLine {line : List Char} (hne : line ≠ [])
    (hline : ∀ c ∈ line, isBreak c = false) :
    chompingOf line = .strip ∧ literalEnd line = ['\n'] := by
  obtain ⟨line, last, rfl⟩ := (List.eq_nil_or_concat' line).resolve_left hne
  have hlast : isBreak last = false := hline last (by simp)
  refine ⟨chompingOf_strip hlast line, ?_⟩
  simp [literalEnd, hlast]

/-- A last line with line breaks after it. -/
theorem literal_lastBreaks {line : List Char} (hne : line ≠ [])
    (hline : ∀ c ∈ line, isBreak c = false) {b : Char} {breaks : List Char}
    (hbreak : ∀ c ∈ b :: breaks, isBreak c = true) :
    chompingOf (line ++ b :: breaks) = (if breaks.isEmpty then .clip else .keep) ∧
      literalEnd (line ++ b :: breaks) = [] := by
  constructor
  · rcases List.eq_nil_or_concat' breaks with rfl | ⟨breaks, last, rfl⟩
    · obtain ⟨line, c, rfl⟩ := (List.eq_nil_or_concat' line).resolve_left hne
      rw [List.append_assoc, List.singleton_append, chompingOf_break (hbreak b (by simp)),
        hline c (by simp)]
      rfl
    · obtain ⟨others, c, hothers⟩ :=
        (List.eq_nil_or_concat' (b :: breaks)).resolve_left (List.cons_ne_nil b breaks)
      have hc : isBreak c = true := by
        have hmem : c ∈ b :: breaks := by simp [hothers]
        refine hbreak c ?_
        rw [← List.cons_append]
        exact List.mem_append_left _ hmem
      rw [← List.cons_append, hothers, List.append_assoc, ← List.append_assoc,
        List.singleton_append, chompingOf_break (hbreak last (by simp)), hc]
      simp
  · rw [literalEnd_append (List.cons_ne_nil b breaks), literalEnd, if_pos]
    rw [List.getLast?_eq_some_getLast (List.cons_ne_nil b breaks), Option.any_some]
    exact hbreak _ (List.getLast_mem _)

/-- Empty lines in front of what follows a literal block. -/
theorem blockMargin?_next {m k : Nat} (hk : k < m) {content : List Char} (hready : Ready content)
    {breaks : List Char} (hprintable : ∀ c ∈ breaks, isPrintable c = true)
    (hbreak : ∀ c ∈ breaks, isBreak c = true) :
    blockMargin? m 0 0 [] (breaks ++ (pad k ++ content)) =
      some ⟨k, max 0 k, breaks, content⟩ := by
  rw [blockMargin?_breaks hprintable hbreak, blockMargin?_pad (.inr (by omega)), Nat.zero_add,
    List.nil_append, blockMargin?_stop]
  intro c hc
  obtain ⟨hgap, hline⟩ := Bool.or_eq_false_iff.1 (hready c hc).1
  exact ⟨hline, fun h => absurd h (by rw [hgap]; decide)⟩

/-- Empty lines in front of a line with content. -/
theorem blockMargin?_full {m : Nat} (hm : 0 < m) {cs : List Char}
    (hcs : ∀ c ∈ cs.head?, isBreak c = false) {breaks : List Char}
    (hprintable : ∀ c ∈ breaks, isPrintable c = true) (hbreak : ∀ c ∈ breaks, isBreak c = true) :
    blockMargin? m 0 0 [] (breaks ++ (pad m ++ cs)) = some ⟨m, max 0 m, breaks, cs⟩ := by
  rw [blockMargin?_breaks hprintable hbreak, blockMargin?_pad (.inr (by omega)), Nat.zero_add,
    List.nil_append, blockMargin?_stop]
  intro c hc
  exact ⟨hcs c hc, fun _ => ⟨Nat.ne_of_gt hm, Nat.le_refl m⟩⟩

theorem head?_indentLines {s : List Char} (hne : s ≠ []) (m : Nat) (rest : List Char) :
    (indentLines m false s ++ rest).head? = s.head? := by
  obtain ⟨c, s, rfl⟩ := List.exists_cons_of_ne_nil hne
  rw [indentLines]
  split <;> rfl

/-- The lines of a literal block from one with content on. -/
theorem blockLines?_append {m k : Nat} (hk : k < m) {content : List Char} (hready : Ready content)
    {s : List Char} (hprintable : ∀ c ∈ s, isPrintable c = true) (hne : s ≠ [])
    (hhead : ∀ c ∈ s.head?, isBreak c = false) {bound : Nat} (hbound : s.length < bound)
    (draft : BlockDraft) (widest : Nat) (breaks : List Char) :
    blockLines? false (chompingOf s) m bound draft
        ⟨m, widest, breaks, indentLines m false s ++ (literalEnd s ++ (pad k ++ content))⟩ =
      some (draft.text ++ draft.lastBreak ++ breaks ++ s, content) := by
  have hlength := List.length_pos_iff.2 hne
  obtain ⟨bound, rfl⟩ : ∃ less, bound = less + 2 := ⟨bound - 2, by omega⟩
  induction chunks isBreak s generalizing draft widest breaks bound with
  | @word word hword =>
    obtain ⟨hchomp, hend⟩ := literal_lastLine hne hword
    have hindent := indentLines_word hword m []
    have hnext := @blockMargin?_next m k hk content hready [] (by simp) (by simp)
    rw [List.append_nil] at hindent
    rw [List.nil_append] at hnext
    rw [hend, hindent, hchomp, indentLines, List.append_nil, List.singleton_append,
      blockLines?_line hword rfl rfl, hnext, Option.bind_some,
      blockLines?_end (Nat.ne_of_lt hk)]
    rfl
  | @gap word gap rest hword hgne hgap hrhead _ ih =>
    have hwne : word ≠ [] := by
      rintro rfl
      obtain ⟨b, gap, rfl⟩ := List.exists_cons_of_ne_nil hgne
      have hb := hgap b (by simp)
      rw [hhead b rfl] at hb
      cases hb
    obtain ⟨b, gap, rfl⟩ := List.exists_cons_of_ne_nil hgne
    have hprintableGap : ∀ c ∈ b :: gap, isPrintable c = true := fun c hc =>
      hprintable c (by simp only [List.mem_append]; exact .inl (.inr hc))
    have hindent : indentLines m false (word ++ b :: gap ++ rest) =
        word ++ b :: (gap ++ indentLines m true rest) := by
      rw [List.append_assoc, indentLines_word hword, List.cons_append,
        indentLines_break (hgap b (by simp)), indentLines_breaks fun c hc => hgap c (by simp [hc])]
    rw [List.forall_mem_cons] at hgap hprintableGap
    rw [hindent]
    simp only [List.append_assoc, List.cons_append]
    rw [blockLines?_line hword hprintableGap.1 hgap.1]
    by_cases hrest : rest = []
    · subst hrest
      have hlast := literal_lastBreaks hwne hword (List.forall_mem_cons.2 hgap)
      have hnext := blockMargin?_next hk hready hprintableGap.2 hgap.2
      simp only [List.append_nil, indentLines, hlast, List.nil_append]
      rw [hnext, Option.bind_some, blockLines?_end (Nat.ne_of_lt hk)]
      cases gap <;> simp [BlockDraft.finish]
    · have hline : indentLines m true rest = pad m ++ indentLines m false rest := by
        obtain ⟨c, rest, rfl⟩ := List.exists_cons_of_ne_nil hrest
        exact indentLines_line (hrhead c rfl) m rest
      have hstart : ∀ c ∈ (indentLines m false rest ++ (literalEnd rest ++ (pad k ++ content))).head?,
          isBreak c = false := by
        rwa [head?_indentLines hrest]
      have hfull := blockMargin?_full (Nat.zero_lt_of_lt hk) hstart hprintableGap.2 hgap.2
      have hchomp : chompingOf (word ++ b :: (gap ++ rest)) = chompingOf rest := by
        rw [← List.cons_append, ← List.append_assoc]
        exact chompingOf_append hrest hrhead _
      have hend : literalEnd (word ++ b :: (gap ++ rest)) = literalEnd rest := by
        rw [← List.cons_append, ← List.append_assoc]
        exact literalEnd_append hrest _
      simp only [List.length_append, List.length_cons] at hbound
      have hwpos := List.length_pos_iff.2 hwne
      have hrpos := List.length_pos_iff.2 hrest
      obtain ⟨bound, rfl⟩ := Nat.exists_eq_add_one_of_ne_zero (by omega : bound ≠ 0)
      rw [hchomp, hend, hline, List.append_assoc, hfull, Option.bind_some,
        ih (fun c hc => hprintable c (by simp [hc])) hrest hrhead _ _ _ hrpos bound (by omega)]
      simp only [List.append_assoc, List.cons_append, List.nil_append]

/-! ### Whole blocks -/

theorem length_le_indentLines (m : Nat) (lineStart : Bool) (s : List Char) :
    s.length ≤ (indentLines m lineStart s).length := by
  induction s generalizing lineStart with
  | nil => exact Nat.le_refl _
  | cons c s ih =>
    rw [indentLines]
    split
    · exact Nat.succ_le_succ (ih true)
    · rw [List.length_append, List.length_cons, List.length_cons]
      exact Nat.le_trans (Nat.succ_le_succ (ih false)) (Nat.le_add_left _ _)

/-- A literal block starts with empty lines. The rest of it are lines with content, if there is a
rest. -/
theorem indentLines_split {s : List Char} {m : Nat} :
    ∃ breaks lines, s = breaks ++ lines ∧ (∀ c ∈ breaks, isBreak c = true) ∧
      (∀ c ∈ lines.head?, isBreak c = false) ∧
      indentLines m true s =
        breaks ++ (if lines.isEmpty then [] else pad m ++ indentLines m false lines) := by
  induction s with
  | nil => exact ⟨[], [], rfl, by simp, by simp, rfl⟩
  | cons c s ih =>
    cases hc : isBreak c with
    | false =>
      refine ⟨[], c :: s, rfl, by simp, by simpa using hc, ?_⟩
      exact indentLines_line hc m s
    | true =>
      obtain ⟨breaks, lines, hs, hbreaks, hlines, hindent⟩ := ih
      refine ⟨c :: breaks, lines, by rw [hs]; rfl, List.forall_mem_cons.2 ⟨hc, hbreaks⟩, hlines, ?_⟩
      rw [indentLines_break hc, hindent]
      rfl

/-- A block that says how far its lines are indented. -/
theorem blockLines?_given {s : List Char} (hs : s ≠ [])
    (hprintable : ∀ c ∈ s, isPrintable c = true) {m k : Nat} (hk : k < m) {content : List Char}
    (hready : Ready content) {bound : Nat} (hbound : s.length < bound) :
    (blockMargin? m 0 0 [] (indentLines m true s ++ (literalEnd s ++ (pad k ++ content)))).bind
        (blockLines? false (chompingOf s) m bound {}) = some (s, content) := by
  obtain ⟨breaks, lines, rfl, hbreaks, hlines, hindent⟩ := @indentLines_split s m
  rw [hindent]
  have hprintable' : ∀ c ∈ breaks, isPrintable c = true := fun c hc => hprintable c (by simp [hc])
  by_cases hne : lines = []
  · subst hne
    rw [List.append_nil] at hs ⊢
    have hend : literalEnd breaks = [] := by
      rw [literalEnd, if_pos]
      rw [List.getLast?_eq_some_getLast hs, Option.any_some]
      exact hbreaks _ (List.getLast_mem hs)
    have hkeep : chompingOf breaks = .keep := by
      obtain ⟨breaks, last, rfl⟩ := (List.eq_nil_or_concat' breaks).resolve_left hs
      rcases List.eq_nil_or_concat' breaks with rfl | ⟨breaks, before, rfl⟩
      · simp [chompingOf, hbreaks last (by simp)]
      · rw [List.append_assoc, List.singleton_append, chompingOf_break (hbreaks last (by simp)),
          hbreaks before (by simp), if_pos rfl]
    obtain ⟨bound, rfl⟩ := Nat.exists_eq_add_one_of_ne_zero (Nat.ne_zero_of_lt hbound)
    rw [hend, List.nil_append, List.isEmpty_nil, if_pos rfl, List.append_nil,
      blockMargin?_next hk hready hprintable' hbreaks, Option.bind_some,
      blockLines?_end (Nat.ne_of_lt hk), hkeep]
    rfl
  · have hstart : ∀ c ∈ (indentLines m false lines ++
        (literalEnd lines ++ (pad k ++ content))).head?, isBreak c = false := by
      rwa [head?_indentLines hne]
    simp only [List.length_append] at hbound
    rw [literalEnd_append hne, chompingOf_append hne hlines, if_neg (by simpa using hne),
      List.append_assoc, List.append_assoc,
      blockMargin?_full (Nat.zero_lt_of_lt hk) hstart hprintable' hbreaks, Option.bind_some,
      blockLines?_append hk hready (fun c hc => hprintable c (by simp [hc])) hne hlines (by omega)]
    rfl

/-- A text that is a literal block is read back, up to the line after the block. -/
theorem blockScalar?_literalBlock {s : List Char} (hs : s ≠ [])
    (hprintable : ∀ c ∈ s, isPrintable c = true) {c k : Nat} (hk : k ≤ c) {content : List Char}
    (hready : Ready content) :
    blockScalar? false c ((literalBlock (c + 2) s).tail ++ (pad k ++ content)) =
      some (s, content) := by
  have htext : (literalBlock (c + 2) s).tail ++ (pad k ++ content) = (literalMarks s).tail ++
      '\n' :: (indentLines (c + 2) true s ++ (literalEnd s ++ (pad k ++ content))) := by
    simp only [literalBlock, literalMarks, literalEnd, List.cons_append, List.tail_cons,
      List.append_assoc]
  have hlength : s.length <
      (indentLines (c + 2) true s ++ (literalEnd s ++ (pad k ++ content))).length + 1 := by
    have := length_le_indentLines (c + 2) true s
    simp only [List.length_append]
    omega
  rw [htext, blockScalar?, blockMarks?_literalMarks]
  simp only [Option.bind_eq_bind, Option.bind_some, endOfLine?_newLine]
  cases hhead : s.head?.any fun d => d == ' ' || isBreak d with
  | true =>
    have hincrement : incrementOf s = 2 := by rw [incrementOf, hhead, if_pos rfl]
    have hgiven : (max (c : Int) 0).toNat + 2 = c + 2 := by omega
    rw [hincrement, if_neg (by decide), hgiven]
    exact blockLines?_given hs hprintable (by omega) hready hlength
  | false =>
    have hincrement : incrementOf s = 0 := by rw [incrementOf, hhead]; rfl
    rw [Option.any_eq_false] at hhead
    have hbreak : ∀ d ∈ s.head?, isBreak d = false := fun d hd =>
      (Bool.or_eq_false_iff.1 (hhead d hd)).2
    have hline : indentLines (c + 2) true s = pad (c + 2) ++ indentLines (c + 2) false s := by
      obtain ⟨d, s, rfl⟩ := List.exists_cons_of_ne_nil hs
      exact indentLines_line (hbreak d rfl) (c + 2) s
    have hmargin : blockMargin? 0 0 0 []
        (indentLines (c + 2) true s ++ (literalEnd s ++ (pad k ++ content))) =
        some ⟨c + 2, max 0 (c + 2), [],
          indentLines (c + 2) false s ++ (literalEnd s ++ (pad k ++ content))⟩ := by
      rw [hline, List.append_assoc, blockMargin?_pad (.inl rfl), Nat.zero_add, blockMargin?_stop]
      rw [head?_indentLines hs]
      intro d hd
      refine ⟨hbreak d hd, fun hgap => ?_⟩
      have hspace := eq_space_of_isPrintable (hprintable d (List.mem_of_mem_head? hd)) hgap
      have := hhead d hd
      rw [hspace] at this
      cases this
    have hindent : max (max 0 (c + 2)) (max ((c : Int) + 1) 1).toNat = c + 2 := by omega
    rw [hincrement, if_pos rfl, hmargin, Option.bind_some, if_pos rfl, hindent,
      blockLines?_append (by omega) hready hprintable hs hbreak hlength]
    rfl

theorem indentLines_concat {b : Char} (hb : isBreak b = true) (m : Nat) (lineStart : Bool)
    (s : List Char) : indentLines m lineStart (s ++ [b]) = indentLines m lineStart s ++ [b] := by
  induction s generalizing lineStart with
  | nil => rw [List.nil_append, indentLines_break hb]; rfl
  | cons c s ih =>
    rw [List.cons_append, indentLines, indentLines, ih, ih]
    split
    · rfl
    · rw [List.append_assoc, List.cons_append]

/-- A literal block ends with a line break. -/
theorem literalBlock_eq (m : Nat) {s : List Char} (hs : s ≠ []) :
    ∃ front b, isBreak b = true ∧ literalBlock m s = '|' :: (front ++ [b]) := by
  obtain ⟨marks, hmarks⟩ : ∃ marks, literalMarks s = '|' :: marks := ⟨_, rfl⟩
  obtain ⟨s, last, rfl⟩ := (List.eq_nil_or_concat' s).resolve_left hs
  rw [literalBlock, hmarks]
  cases hlast : isBreak last with
  | true =>
    refine ⟨marks ++ '\n' :: indentLines m true s, last, hlast, ?_⟩
    simp [indentLines_concat hlast, hlast]
  | false =>
    refine ⟨marks ++ '\n' :: indentLines m true (s ++ [last]), '\n', rfl, ?_⟩
    simp [hlast]

end SourceAtlas.Yaml
