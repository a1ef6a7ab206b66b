import Mathlib.Logic.Relation
import SourceAtlas.Yaml.Scanner

/-!
# The scanner between two tokens

After a token the scanner passes over blanks, forgets where keys may have started that cannot go on,
and closes the blocks that have ended: `Scanner.arrive?`. The lemmas on it say where the scanner
arrives on a new line, after a space and directly after a key. `Scanner.Step` is one token together
with the way to the next, and `Scanner.run?_of_scans` reads the tokens of a text off a chain of such
steps.
-/

namespace SourceAtlas.Yaml

/-! ### Places -/

namespace Position

theorem past_cons {c : Char} {cs : List Char} (h : c = '\r' → cs.head? ≠ some '\n')
    (p : Position) : p.past (c :: cs) =
      past (if isBreak c then ⟨p.line + 1, 0, p.index + 1⟩
        else ⟨p.line, p.column + 1, p.index + 1⟩) cs := by
  rw [past]
  rintro cs rfl rfl
  exact h rfl rfl

/-- On one line every character takes one column. -/
theorem past_of_noBreak {cs : List Char} (h : ∀ c ∈ cs, isBreak c = false) (p : Position) :
    p.past cs = ⟨p.line, p.column + cs.length, p.index + cs.length⟩ := by
  induction cs generalizing p with
  | nil => rfl
  | cons c cs ih =>
    rw [List.forall_mem_cons] at h
    have hr : c = '\r' → cs.head? ≠ some '\n' := by
      rintro rfl
      cases h.1
    rw [past_cons hr, h.1, ih h.2, List.length_cons, Nat.add_comm cs.length, ← Nat.add_assoc,
      ← Nat.add_assoc]
    rfl

theorem line_le_past (p : Position) (cs : List Char) : p.line ≤ (p.past cs).line := by
  induction p, cs using past.induct with
  | case1 p => exact Nat.le_refl _
  | case2 p cs ih =>
    rw [past]
    exact Nat.le_trans (Nat.le_succ _) ih
  | case3 p c cs hne ih =>
    rw [past]
    · refine Nat.le_trans ?_ ih
      split
      · exact Nat.le_succ _
      · exact Nat.le_refl _
    · exact hne

theorem isBreak_of_mem_pad {m : Nat} {c : Char} (h : c ∈ pad m) : isBreak c = false := by
  rw [List.eq_of_mem_replicate h]
  rfl

/-- After a line break and a margin the place is on a later line, in the column of the margin. -/
theorem past_break {b : Char} (hb : isBreak b = true) (p : Position) (m : Nat) :
    p.past (b :: pad m) = ⟨p.line + 1, m, p.index + 1 + m⟩ := by
  have hr : b = '\r' → (pad m).head? ≠ some '\n' := by
    intro _ h
    cases m <;> cases h
  rw [past_cons hr, if_pos hb, past_of_noBreak fun c hc => isBreak_of_mem_pad hc]
  simp [pad]

/-- The same after any characters. -/
theorem past_append_break {b : Char} (hb : isBreak b = true) (p : Position) (cs : List Char)
    (m : Nat) :
    p.line < (p.past (cs ++ b :: pad m)).line ∧ (p.past (cs ++ b :: pad m)).column = m := by
  induction p, cs using past.induct with
  | case1 p =>
    rw [List.nil_append, past_break hb]
    exact ⟨Nat.lt_succ_self _, rfl⟩
  | case2 p cs ih =>
    rw [List.cons_append, List.cons_append, past]
    exact ⟨Nat.lt_of_le_of_lt (Nat.le_succ _) ih.1, ih.2⟩
  | case3 p c cs hne ih =>
    rw [List.cons_append]
    by_cases hjoint : c = '\r' ∧ cs = [] ∧ b = '\n'
    · -- the two characters are one line break
      obtain ⟨rfl, rfl, rfl⟩ := hjoint
      rw [List.nil_append, past, past_of_noBreak fun c hc => isBreak_of_mem_pad hc]
      exact ⟨Nat.lt_succ_self _, by simp [pad]⟩
    · have hr : c = '\r' → (cs ++ b :: pad m).head? ≠ some '\n' := by
        rintro rfl hhead
        cases cs with
        | nil => exact hjoint ⟨rfl, rfl, Option.some.inj hhead⟩
        | cons d cs => exact hne cs rfl (by rw [Option.some.inj hhead])
      rw [past_cons hr]
      refine ⟨Nat.lt_of_le_of_lt ?_ ih.1, ih.2⟩
      split
      · exact Nat.le_succ _
      · exact Nat.le_refl _

end Position

/-- Whether a text is at its end or goes on with a character that is not passed over between
tokens. -/
def Ready (cs : List Char) : Prop := ∀ c ∈ cs.head?, isBlank c = false ∧ c ≠ '#' ∧ c ≠ '\ufeff'

theorem ready_nil : Ready [] := by
  rintro c ⟨⟩

theorem ready_cons {c : Char} {cs : List Char} :
    Ready (c :: cs) ↔ isBlank c = false ∧ c ≠ '#' ∧ c ≠ '\ufeff' := by
  simp [Ready]

theorem lineBreak?_of_ready {cs : List Char} (h : Ready cs) : lineBreak? cs = none := by
  cases cs with
  | nil => rfl
  | cons c cs =>
    have hbreak : isBreak c = false := (Bool.or_eq_false_iff.1 (ready_cons.1 h).1).2
    have hplain : (c == '\n' || c == '\r' || c == '\u0085') = false := by
      simp only [isBreak, Bool.or_eq_false_iff] at hbreak ⊢
      exact hbreak.1.1
    rw [lineBreak?, hplain, hbreak]
    · rfl
    · rintro rest rfl
      cases hbreak

theorem suffix_of_lineBreak? {cs found rest : List Char} (h : lineBreak? cs = some (found, rest)) :
    rest <:+ cs := by
  unfold lineBreak? at h
  split at h
  · cases h
    exact (List.suffix_cons _ _).trans (List.suffix_cons _ _)
  · split at h
    · cases h
      exact List.suffix_cons _ _
    · split at h
      · cases h
        exact List.suffix_cons _ _
      · cases h
  · cases h

namespace Scanner

/-! ### Moving on -/

theorem moveTo_append {s : Scanner} (used : List Char) {rest : List Char}
    (h : s.rest = used ++ rest) :
    s.moveTo rest = { s with rest, position := s.position.past used } := by
  rw [moveTo, h, List.length_append, Nat.add_sub_cancel, List.take_left]

/-- Where nothing is to be passed over, spaces are. -/
theorem skipBlanks_pad {s : Scanner} {m : Nat} {content : List Char}
    (hrest : s.rest = pad m ++ content) (hready : Ready content) (bound : Nat) :
    s.skipBlanks (bound + 1) =
      { s with rest := content, position := s.position.past (pad m) } := by
  have hmark : s.rest.head? ≠ some '\ufeff' := by
    rw [hrest]
    cases m with
    | zero => exact fun h => (hready _ h).2.2 rfl
    | succ m => rintro ⟨⟩
  have hdrop : s.rest.dropWhile (fun c => c == ' ' || ((s.inFlow || !s.keyAllowed) && c == '\t')) =
      content := by
    rw [hrest, List.dropWhile_append_of_pos]
    · cases content with
      | nil => rfl
      | cons c cs =>
        have hgap : isGap c = false := (Bool.or_eq_false_iff.1 (ready_cons.1 hready).1).1
        rw [isGap, Bool.or_eq_false_iff] at hgap
        rw [List.dropWhile_cons_of_neg]
        simp [hgap]
    · intro c hc
      rw [List.eq_of_mem_replicate hc]
      rfl
  have hhash : content.head? ≠ some '#' := fun h => (hready _ h).2.1 rfl
  rw [skipBlanks]
  simp only [hmark, decide_false, Bool.and_false, Bool.false_eq_true, if_false, hdrop, hhash,
    lineBreak?_of_ready hready]
  exact moveTo_append _ hrest

theorem skipBlanks_ready {s : Scanner} (hready : Ready s.rest) (bound : Nat) :
    s.skipBlanks (bound + 1) = s := by
  rw [skipBlanks_pad (m := 0) rfl hready]
  rfl

/-- A line break and the margin after it are passed over, and a key may start then. -/
theorem skipBlanks_line {s : Scanner} {m : Nat} {content : List Char}
    (hrest : s.rest = '\n' :: pad m ++ content) (hready : Ready content) (bound : Nat) :
    s.skipBlanks (bound + 2) =
      { s with
        rest := content
        position := ⟨s.position.line + 1, m, s.position.index + 1 + m⟩
        keyAllowed := s.keyAllowed || !s.inFlow } := by
  have hmove : s.moveTo (pad m ++ content) =
      { s with
        rest := pad m ++ content
        position := ⟨s.position.line + 1, 0, s.position.index + 1⟩ } :=
    moveTo_append ['\n'] hrest
  rw [skipBlanks, hrest]
  simp only [List.cons_append, List.head?_cons, Option.some.injEq, Char.reduceEq, decide_false,
    Bool.and_false, Bool.false_eq_true, if_false]
  rw [List.dropWhile_cons_of_neg (by simp)]
  simp only [List.head?_cons, Option.some.injEq, Char.reduceEq, if_false]
  rw [show lineBreak? ('\n' :: (pad m ++ content)) = some (['\n'], pad m ++ content) from rfl]
  simp only [hmove]
  rw [skipBlanks_pad rfl hready,
    Position.past_of_noBreak fun c hc => Position.isBreak_of_mem_pad hc]
  simp [pad]

theorem skipBlanks_suffix (s : Scanner) (bound : Nat) : (s.skipBlanks bound).rest <:+ s.rest := by
  induction bound generalizing s with
  | zero => exact List.suffix_rfl
  | succ bound ih =>
    rw [skipBlanks]
    have hunmarked : (if s.position.column = 0 && s.rest.head? = some '\ufeff' then s.rest.drop 1
        else s.rest) <:+ s.rest := by
      split
      · exact List.drop_suffix _ _
      · exact List.suffix_rfl
    have hunspaced := (List.dropWhile_suffix
      fun c => c == ' ' || ((s.inFlow || !s.keyAllowed) && c == '\t')).trans hunmarked
    have hrest : ∀ cs, cs <:+ s.rest →
        (if cs.head? = some '#' then cs.dropWhile (!isBreak ·) else cs) <:+ s.rest := by
      intro cs hcs
      split
      · exact (List.dropWhile_suffix _).trans hcs
      · exact hcs
    replace hrest := hrest _ hunspaced
    split
    next found after hbreak => exact (ih _).trans ((suffix_of_lineBreak? hbreak).trans hrest)
    next => exact hrest

/-! ### Blocks -/

/-- A column within the innermost block closes none. -/
theorem closeBlocks_of_le {s : Scanner} {column : Int} (h : s.indent ≤ column) :
    s.closeBlocks column = s := by
  have hclosed : closedBlocks column s.indent s.indents = (0, s.indent, s.indents) := by
    cases s.indents with
    | nil => rfl
    | cons outer others => rw [closedBlocks, if_neg (by omega)]
  rw [closeBlocks, hclosed]
  split <;> rfl

theorem rest_closeBlocks (s : Scanner) (column : Int) : (s.closeBlocks column).rest = s.rest := by
  rw [closeBlocks]
  split <;> rfl

/-- A column outside of the innermost block closes it, and then what it closes of the others. -/
theorem closeBlocks_push {s : Scanner} {column outer : Int} {others : List Int}
    (hflow : s.outerStarts = []) (hindents : s.indents = outer :: others)
    (h : column < s.indent) :
    s.closeBlocks column =
      closeBlocks { s with tokens := .blockEnd :: s.tokens, indent := outer, indents := others }
        column := by
  simp only [closeBlocks, inFlow, hflow, List.isEmpty_nil, Bool.not_true, Bool.false_eq_true,
    if_false, hindents]
  rw [closedBlocks, if_pos h]
  simp only [List.replicate_succ', List.append_assoc, List.singleton_append]

/-! ### Starts of keys -/

theorem rest_of_dropStale? {s t : Scanner} (h : s.dropStale? = some t) : t.rest = s.rest := by
  rw [dropStale?] at h
  simp only [Option.bind_eq_bind, Option.bind_eq_some_iff] at h
  obtain ⟨keyStart, -, outerStarts, -, h⟩ := h
  cases h
  rfl

/-- Starts on earlier lines are forgotten. -/
theorem dropStale?_of_spent {s : Scanner} (hflow : s.outerStarts = [])
    (hkey : ∀ start ∈ s.keyStart,
      start.required = false ∧ start.position.line < s.position.line) :
    s.dropStale? = some { s with keyStart := none } := by
  have hrefresh : s.refresh? s.keyStart = some none := by
    cases hstart : s.keyStart with
    | none => rfl
    | some start =>
      obtain ⟨hrequired, hline⟩ := hkey start hstart
      simp [refresh?, isStale, hrequired, hline]
  cases s
  subst hflow
  rw [dropStale?, hrefresh]
  rfl

/-- Whether a key that may have started somewhere may still go on: it is on its line and within the
length that a key may have. -/
def Fresh (s : Scanner) (keyStart : Option KeyStart) : Prop :=
  ∀ start ∈ keyStart, start.position.line = s.position.line ∧
    s.position.index ≤ start.position.index + 1024

theorem refresh?_of_fresh {s : Scanner} {keyStart : Option KeyStart} (h : s.Fresh keyStart) :
    s.refresh? keyStart = some keyStart := by
  cases keyStart with
  | none => rfl
  | some start =>
    obtain ⟨hline, hindex⟩ := h start rfl
    simp [refresh?, isStale, hline, hindex]

theorem dropStale?_of_fresh {s : Scanner} (hkey : s.Fresh s.keyStart)
    (houter : ∀ keyStart ∈ s.outerStarts, s.Fresh keyStart) : s.dropStale? = some s := by
  have hstarts : ∀ starts : List (Option KeyStart), (∀ keyStart ∈ starts, s.Fresh keyStart) →
      starts.mapM s.refresh? = some starts := by
    intro starts hstarts
    induction starts with
    | nil => rfl
    | cons keyStart starts ih =>
      rw [List.forall_mem_cons] at hstarts
      simp [refresh?_of_fresh hstarts.1, ih hstarts.2]
  rw [dropStale?, refresh?_of_fresh hkey, hstarts _ houter]
  rfl

/-! ### Arriving at a token -/

/-- The scanner at the next token, with the blocks closed that end before it. -/
def arrive? (s : Scanner) : Option Scanner :=
  (s.skipBlanks (s.rest.length + 1)).dropStale?.map fun s => s.closeBlocks s.column

/-- The scanner in a block, outside of all flow collections and not within a key. -/
def blockAt (rest : List Char) (position : Position) (tokens : List Token) (keyAllowed : Bool)
    (indent : Int) (indents : List Int) : Scanner :=
  { rest, position, tokens, keyAllowed, indent, indents }

theorem arrive?_line {s : Scanner} {m : Nat} {content : List Char}
    (hrest : s.rest = '\n' :: pad m ++ content) (hready : Ready content)
    (hflow : s.outerStarts = [])
    (hkey : ∀ start ∈ s.keyStart,
      start.required = false ∧ start.position.line ≤ s.position.line) :
    s.arrive? = some ((blockAt content ⟨s.position.line + 1, m, s.position.index + 1 + m⟩ s.tokens
      true s.indent s.indents).closeBlocks m) := by
  have hbound : s.rest.length + 1 = (m + content.length) + 2 := by
    simp [hrest, pad]
  rw [arrive?, hbound, skipBlanks_line hrest hready, dropStale?_of_spent]
  · simp [inFlow, hflow, blockAt, column]
  · exact hflow
  · intro start hstart
    exact ⟨(hkey start hstart).1, Nat.lt_succ_of_le (hkey start hstart).2⟩

theorem arrive?_here {s : Scanner} (hready : Ready s.rest) (hflow : s.outerStarts = [])
    (hallowed : s.keyAllowed = true)
    (hkey : ∀ start ∈ s.keyStart,
      start.required = false ∧ start.position.line < s.position.line) :
    s.arrive? = some ((blockAt s.rest s.position s.tokens true s.indent s.indents).closeBlocks
      s.position.column) := by
  rw [arrive?, skipBlanks_ready hready, dropStale?_of_spent hflow hkey]
  simp [blockAt, column, hallowed, hflow]

theorem arrive?_space {s : Scanner} {content : List Char} (hrest : s.rest = ' ' :: content)
    (hready : Ready content) (hflow : s.outerStarts = []) (hkey : s.keyStart = none)
    (hindent : s.indent ≤ s.position.column + 1) :
    s.arrive? = some
      { s with
        rest := content
        position := ⟨s.position.line, s.position.column + 1, s.position.index + 1⟩ } := by
  rw [arrive?, skipBlanks_pad (m := 1) hrest hready, dropStale?_of_spent, Option.map_some,
    closeBlocks_of_le]
  · rw [hkey]
    rfl
  · exact hindent
  · exact hflow
  · simp [hkey]

theorem arrive?_of_fresh {s : Scanner} (hready : Ready s.rest) (hkey : s.Fresh s.keyStart)
    (houter : ∀ keyStart ∈ s.outerStarts, s.Fresh keyStart)
    (hindent : s.indent ≤ s.position.column) : s.arrive? = some s := by
  rw [arrive?, skipBlanks_ready hready, dropStale?_of_fresh hkey houter, Option.map_some]
  exact congrArg some (closeBlocks_of_le hindent)

theorem length_rest_of_arrive? {s a : Scanner} (h : s.arrive? = some a) :
    a.rest.length ≤ s.rest.length := by
  rw [arrive?, Option.map_eq_some_iff] at h
  obtain ⟨t, hdrop, rfl⟩ := h
  rw [rest_closeBlocks, rest_of_dropStale? hdrop]
  exact (skipBlanks_suffix s _).length_le

/-! ### From token to token -/

/-- What the scanner does once it has arrived at a token or at the end. -/
def proceed? (bound : Nat) (s : Scanner) : Option (List Token) :=
  if s.rest.isEmpty then s.finish? else s.token?.bind (run? bound)

theorem run?_succ (bound : Nat) (s : Scanner) :
    run? (bound + 1) s = s.arrive?.bind (proceed? bound) := by
  rw [run?, arrive?]
  cases (s.skipBlanks (s.rest.length + 1)).dropStale? <;> rfl

/-- The scanner reads a token and arrives at the next one. -/
def Step (s a : Scanner) : Prop :=
  ∃ t, s.token? = some t ∧ t.rest.length < s.rest.length ∧ t.arrive? = some a

/-- The scanner gets from a token to a later one. -/
abbrev Steps : Scanner → Scanner → Prop := Relation.ReflTransGen Step

/-- The scanner gets from the end of a token to a later token. -/
def Scans (s b : Scanner) : Prop := ∃ a, s.arrive? = some a ∧ Steps a b

theorem proceed?_of_step {s a : Scanner} (h : Step s a) {bound : Nat} (hbound : s.rest.length ≤ bound) :
    ∃ less, a.rest.length ≤ less ∧ proceed? bound s = proceed? less a := by
  obtain ⟨t, htoken, hlength, harrive⟩ := h
  have hle := length_rest_of_arrive? harrive
  obtain ⟨less, rfl⟩ : ∃ less, bound = less + 1 := ⟨bound - 1, by omega⟩
  refine ⟨less, by omega, ?_⟩
  have hne : s.rest.isEmpty = false := by
    cases hrest : s.rest with
    | nil => simp [hrest] at hlength
    | cons c cs => rfl
  rw [proceed?, hne, htoken, if_neg Bool.false_ne_true, Option.bind_some, run?_succ, harrive,
    Option.bind_some]

theorem proceed?_of_steps {s a : Scanner} (h : Steps s a) {bound : Nat}
    (hbound : s.rest.length ≤ bound) :
    ∃ less, a.rest.length ≤ less ∧ proceed? bound s = proceed? less a := by
  induction h with
  | refl => exact ⟨bound, hbound, rfl⟩
  | tail _ hstep ih =>
    obtain ⟨less, hless, heq⟩ := ih
    obtain ⟨least, hleast, heq'⟩ := proceed?_of_step hstep hless
    exact ⟨least, hleast, heq.trans heq'⟩

/-- The tokens of a text from the end of which the scanner can go no further. -/
theorem run?_of_scans {s a : Scanner} (h : Scans s a) (hend : a.rest = []) :
    run? (s.rest.length + 1) s = a.finish? := by
  obtain ⟨b, harrive, hsteps⟩ := h
  obtain ⟨less, -, heq⟩ := proceed?_of_steps hsteps (length_rest_of_arrive? harrive)
  rw [run?_succ, harrive, Option.bind_some, heq, proceed?, hend]
  rfl

theorem Scans.steps {s t a : Scanner} (h : Scans t a) (htoken : s.token? = some t)
    (hlength : t.rest.length < s.rest.length) : Steps s a := by
  obtain ⟨b, harrive, hsteps⟩ := h
  exact .head ⟨t, htoken, hlength, harrive⟩ hsteps

end Scanner

end SourceAtlas.Yaml
