import Mathlib.Algebra.Group.Nat.Defs
import SourceAtlas.Proofs.Yaml.Plain

/-!
# Quoted scalars

A text between quotes is read word by word up to the closing quote. Between double quotes every
character but a space is read back from its escape; between single quotes a quote is doubled, and
the margin after a line break is not part of the text. The main results are
`quotedScalar?_doubleQuoted` and `quotedScalar?_singleQuoted`.
-/

namespace SourceAtlas.Yaml

/-! ### Between quotes -/

/-- The text that some characters stand for up to a closing quote, word by word. No gap ends at the
start of a line. -/
inductive Quoted (quote : Char) (suffix : List Char) : List Char → List Char → Prop where
  | close {word cs : List Char} (hne : cs ≠ [])
      (hread : quotedWord? quote cs = some (word, false, quote :: suffix)) :
      Quoted quote suffix word cs
  | gap {word cs middle more text : List Char} {gap : Gap}
      (hread : quotedWord? quote cs = some (word, false, middle)) (hhead : middle.head? ≠ some quote)
      (hgap : Gap.read? 0 {} middle = some (gap, more)) (hline : gap.atLineStart = false)
      (hlength : more.length < cs.length) (hrest : Quoted quote suffix text more) :
      Quoted quote suffix (word ++ gap.fold ++ text) cs

theorem quotedWords?_of_quoted {quote : Char} {suffix text cs : List Char}
    (h : Quoted quote suffix text cs) (before : List Char) {bound : Nat}
    (hbound : cs.length < bound) :
    quotedWords? quote bound before false cs = some (before ++ text, suffix) := by
  induction h generalizing before bound with
  | @close word cs hne hread =>
    obtain ⟨bound, rfl⟩ := Nat.exists_eq_add_one_of_ne_zero (Nat.ne_zero_of_lt hbound)
    rw [quotedWords?, if_neg (by simpa using hne), hread]
    simp
  | @gap word cs middle more text gap hread hhead hgap hline hlength hrest ih =>
    obtain ⟨bound, rfl⟩ := Nat.exists_eq_add_one_of_ne_zero (Nat.ne_zero_of_lt hbound)
    have hne : cs ≠ [] := List.ne_nil_of_length_pos (Nat.zero_lt_of_lt hlength)
    rw [quotedWords?, if_neg (by simpa using hne), hread]
    simp only [hhead, decide_false, Bool.and_false, Bool.false_eq_true, if_false, hgap, hline]
    rw [ih _ (by omega)]
    simp only [List.append_assoc]

theorem quotedScalar?_of_quoted {quote : Char} {suffix text cs : List Char}
    (h : Quoted quote suffix text cs) : quotedScalar? quote cs = some (text, suffix) :=
  quotedWords?_of_quoted h [] (Nat.lt_succ_self _)

/-! ### Escapes -/

theorem flatMap_eq_self {f : Char → List Char} {s : List Char} (h : ∀ c ∈ s, f c = [c]) :
    s.flatMap f = s := by
  induction s with
  | nil => rfl
  | cons c s ih =>
    rw [List.forall_mem_cons] at h
    rw [List.flatMap_cons, h.1, ih h.2, List.singleton_append]

/-- Puts a character in front of a word that has been read. -/
def addToWord (c : Char) : List Char × Bool × List Char → List Char × Bool × List Char
  | (word, broken, rest) => (c :: word, broken, rest)

theorem doubleWord?_letter {letter c : Char} (hescaped : escaped? letter = some c)
    (hbreak : isBreak letter = false) (rest : List Char) :
    doubleWord? ('\\' :: letter :: rest) = (doubleWord? rest).map (addToWord c) := by
  have hx : letter ≠ 'x' := by rintro rfl; cases hescaped
  have hu : letter ≠ 'u' := by rintro rfl; cases hescaped
  have hU : letter ≠ 'U' := by rintro rfl; cases hescaped
  have hr : letter ≠ '\r' := by rintro rfl; cases hbreak
  rw [doubleWord?, hbreak, hescaped]
  · cases doubleWord? rest <;> rfl
  all_goals intros; contradiction

theorem doubleWord?_plain {c : Char} (hquote : c ≠ '"') (hslash : c ≠ '\\')
    (hblank : isBlank c = false) (rest : List Char) :
    doubleWord? (c :: rest) = (doubleWord? rest).map (addToWord c) := by
  rw [doubleWord?, hblank, Bool.or_false, if_neg (by simpa using hquote)]
  · cases doubleWord? rest <;> rfl
  all_goals intros; contradiction

theorem numeral?_append {base : Nat} (value : Nat) (cs ds : List Char) :
    numeral? base value (cs ++ ds) = (numeral? base value cs).bind fun v => numeral? base v ds := by
  induction cs generalizing value with
  | nil => rfl
  | cons c cs ih =>
    rw [List.cons_append, numeral?, numeral?]
    cases digit? c with
    | none => rfl
    | some d =>
      by_cases hd : d < base
      · simp only [hd, if_true, ih]
      · simp only [hd, if_false, Option.bind_none]

/-- Digits in upper case have the value of the digits. -/
theorem digit?_toUpper_digitChar {d : Nat} (hd : d < 16) :
    digit? (Char.toUpper (Nat.digitChar d)) = some d := by
  decide +revert

theorem numeral?_toDigits (n : Nat) :
    numeral? 16 0 ((Nat.toDigits 16 n).map Char.toUpper) = some n := by
  induction n using Nat.strongRecOn with
  | ind n ih =>
    rw [Nat.toDigits_eq_if (by decide)]
    split
    next hlt =>
      simp only [List.map_cons, List.map_nil, numeral?, digit?_toUpper_digitChar hlt, hlt, if_true]
      simp
    next hle =>
      have hmod : n % 16 < 16 := Nat.mod_lt _ (by decide)
      rw [List.map_append, numeral?_append, ih (n / 16) (by omega)]
      simp only [Option.bind_some, List.map_cons, List.map_nil, numeral?,
        digit?_toUpper_digitChar hmod, hmod, if_true]
      rw [Nat.div_add_mod']

theorem numeral?_zeros (n : Nat) (cs : List Char) :
    numeral? 16 0 (List.replicate n '0' ++ cs) = numeral? 16 0 cs := by
  induction n with
  | zero => rfl
  | succ n ih => simpa [List.replicate_succ, numeral?, digit?] using ih

theorem codeChar?_codePoint (width : Nat) (c : Char) : codeChar? (codePoint width c) = some c := by
  have hvalid : c.toNat.isValidChar := c.valid
  simp only [codeChar?, codePoint, numeral?_zeros, numeral?_toDigits, Option.bind_some, hvalid,
    if_true, Char.ofNat_toNat]

theorem length_codePoint {width : Nat} {c : Char} (hpos : 0 < width) (h : c.toNat < 16 ^ width) :
    (codePoint width c).length = width := by
  have hle := (Nat.length_toDigits_le_iff (by decide : 1 < 16) hpos).2 h
  simp only [codePoint, List.length_append, List.length_replicate, List.length_map]
  omega

theorem doubleWord?_code {c : Char} {rest : List Char} (h : c.toNat ≤ 0xff) :
    doubleWord? ('\\' :: 'x' :: codePoint 2 c ++ rest) = (doubleWord? rest).map (addToWord c) := by
  have hlength := length_codePoint (by decide : 0 < 2) (Nat.lt_succ_of_le h)
  have hchar := codeChar?_codePoint 2 c
  match codePoint 2 c, hlength, hchar with
  | [a, b], _, hchar =>
    rw [List.cons_append, List.cons_append, List.cons_append, List.cons_append, List.nil_append,
      doubleWord?, hchar]
    cases doubleWord? rest <;> rfl

theorem doubleWord?_longCode {c : Char} {rest : List Char} (h : c.toNat ≤ 0xffff) :
    doubleWord? ('\\' :: 'u' :: codePoint 4 c ++ rest) = (doubleWord? rest).map (addToWord c) := by
  have hlength := length_codePoint (by decide : 0 < 4) (Nat.lt_succ_of_le h)
  have hchar := codeChar?_codePoint 4 c
  match codePoint 4 c, hlength, hchar with
  | [a, b, d, e], _, hchar =>
    rw [List.cons_append, List.cons_append, List.cons_append, List.cons_append, List.cons_append,
      List.cons_append, List.nil_append, doubleWord?, hchar]
    cases doubleWord? rest <;> rfl

/-- Every character but a space is read back from its escape. -/
theorem doubleWord?_escapeChar {c : Char} (hc : c ≠ ' ') (rest : List Char) :
    doubleWord? (escapeChar c ++ rest) = (doubleWord? rest).map (addToWord c) := by
  rw [escapeChar]
  split
  next h =>
    rw [eq_of_beq h]
    exact doubleWord?_letter rfl rfl rest
  next hquote =>
  split
  next h =>
    rw [eq_of_beq h]
    exact doubleWord?_letter rfl rfl rest
  next hslash =>
  split
  next h =>
    obtain ⟨hprintable, hbreak⟩ := Bool.and_eq_true_iff.1 h
    have hgap : isGap c = false := by
      rw [← Bool.not_eq_true]
      exact fun h => hc (eq_space_of_isPrintable hprintable h)
    refine doubleWord?_plain (by simpa using hquote) (by simpa using hslash) ?_ rest
    rw [isBlank, hgap, Bool.false_or]
    simpa using hbreak
  next hprintable =>
  split
  case h_13 =>
    split
    next h => exact doubleWord?_code h
    next =>
    split
    next h => exact doubleWord?_longCode h
    next h =>
      -- characters beyond those are written as they are
      refine absurd ?_ hprintable
      simp only [isPrintable, isBreak, Bool.and_eq_true, Bool.or_eq_true, decide_eq_true_eq,
        Bool.not_eq_true', Bool.or_eq_false_iff, beq_eq_false_iff_ne]
      refine ⟨.inr (by omega), ⟨⟨⟨?_, ?_⟩, ?_⟩, ?_⟩, ?_⟩ <;> rintro rfl <;> exact h (by decide)
  all_goals
    rename_i h
    rw [← Char.ofNat_toNat c, h]
    exact doubleWord?_letter rfl rfl rest

/-- A word between double quotes is read up to what ends it. -/
theorem doubleWord?_append {word tail : List Char} (hword : ∀ c ∈ word, (c == ' ') = false)
    (htail : doubleWord? tail = some ([], false, tail)) :
    doubleWord? (word.flatMap escapeChar ++ tail) = some (word, false, tail) := by
  induction word with
  | nil => exact htail
  | cons c word ih =>
    rw [List.forall_mem_cons] at hword
    rw [List.flatMap_cons, List.append_assoc, doubleWord?_escapeChar (by simpa using hword.1),
      ih hword.2]
    rfl

theorem doubleWord?_quote (suffix : List Char) :
    doubleWord? ('"' :: suffix) = some ([], false, '"' :: suffix) := by
  rw [doubleWord?]
  · rfl
  all_goals intros; contradiction

theorem doubleWord?_space (suffix : List Char) :
    doubleWord? (' ' :: suffix) = some ([], false, ' ' :: suffix) := by
  rw [doubleWord?]
  · rfl
  all_goals intros; contradiction

/-- The characters of escapes: letters, digits and marks. -/
def isVisible (c : Char) : Bool := 0x21 ≤ c.toNat && c.toNat ≤ 0x7e

theorem exists_digitChar {n : Nat} {c : Char} (h : c ∈ Nat.toDigits 16 n) :
    ∃ d < 16, c = Nat.digitChar d := by
  induction n using Nat.strongRecOn with
  | ind n ih =>
    rw [Nat.toDigits_eq_if (by decide)] at h
    split at h
    next hlt => exact ⟨n, hlt, List.mem_singleton.1 h⟩
    next hle =>
      rcases List.mem_append.1 h with h | h
      · exact ih (n / 16) (by omega) h
      · exact ⟨n % 16, Nat.mod_lt n (by decide), List.mem_singleton.1 h⟩

theorem isVisible_codePoint (width : Nat) (c : Char) : (codePoint width c).all isVisible = true := by
  rw [List.all_eq_true]
  intro d hd
  rcases List.mem_append.1 hd with hd | hd
  · rw [List.eq_of_mem_replicate hd]
    rfl
  · obtain ⟨e, he, rfl⟩ := List.mem_map.1 hd
    obtain ⟨n, hn, rfl⟩ := exists_digitChar he
    exact (by decide : ∀ n < 16, isVisible (Nat.digitChar n).toUpper = true) n hn

/-- A character is written as it is, or as a backslash with a few visible characters. -/
theorem escapeChar_cases (c : Char) :
    (escapeChar c = [c] ∧ isPrintable c = true ∧ isBreak c = false) ∨
      ∃ ds, escapeChar c = '\\' :: ds ∧ ds.all isVisible = true ∧ ds.length < 4 * c.utf8Size := by
  have hsize := c.utf8Size_pos
  have hshort : ∀ letter, isVisible letter = true →
      ∃ ds, ['\\', letter] = '\\' :: ds ∧ ds.all isVisible = true ∧ ds.length < 4 * c.utf8Size :=
    fun letter h => ⟨[letter], rfl, by simp [h], by simp; omega⟩
  rw [escapeChar]
  split
  · exact .inr (hshort _ rfl)
  split
  · exact .inr (hshort _ rfl)
  split
  next h => exact .inl ⟨rfl, by simpa using h⟩
  split
  case h_13 =>
    split
    next hle =>
      refine .inr ⟨_, rfl, by rw [List.all_cons, isVisible_codePoint]; rfl, ?_⟩
      rw [List.length_cons, length_codePoint (by decide) (Nat.lt_succ_of_le hle)]
      omega
    next hlong =>
      split
      next hle =>
        refine .inr ⟨_, rfl, by rw [List.all_cons, isVisible_codePoint]; rfl, ?_⟩
        rw [List.length_cons, length_codePoint (by decide) (Nat.lt_succ_of_le hle)]
        have hone : c.utf8Size ≠ 1 := by
          intro h
          have hval : c.toNat ≤ 127 := UInt32.le_iff_toNat_le.1 (Char.utf8Size_eq_one_iff.1 h)
          omega
        omega
      next hlarge =>
        have hfour : c.utf8Size = 4 :=
          Char.utf8Size_eq_four_iff.2 (UInt32.lt_iff_toNat_lt.2 (Nat.lt_of_not_le hlarge))
        refine .inr ⟨_, rfl, by rw [List.all_cons, isVisible_codePoint]; rfl, ?_⟩
        rw [List.length_cons, length_codePoint (by decide) c.val.toNat_lt, hfour]
        decide
  all_goals exact .inr (hshort _ rfl)

theorem head?_escapeChar {c : Char} (hc : c ≠ ' ') (rest : List Char) :
    ∀ d ∈ (escapeChar c ++ rest).head?, isBlank d = false := by
  rintro d hd
  rcases escapeChar_cases c with ⟨hself, hprintable, hbreak⟩ | ⟨ds, hds, -⟩
  · rw [hself] at hd
    cases hd
    rw [isBlank, hbreak, Bool.or_false, ← Bool.not_eq_true]
    exact fun hgap => hc (eq_space_of_isPrintable hprintable hgap)
  · rw [hds] at hd
    cases hd
    rfl

/-- A text between double quotes is read back. -/
theorem quoted_doubleQuoted (s suffix : List Char) :
    Quoted '"' suffix s (s.flatMap escapeChar ++ '"' :: suffix) := by
  induction chunks (· == ' ') s with
  | @word word hword => exact .close (by simp) (doubleWord?_append hword (doubleWord?_quote suffix))
  | @gap word gap rest hword hne hgap hhead hrest ih =>
    have hpad : gap = pad gap.length := eq_pad fun c hc => eq_of_beq (hgap c hc)
    have hspaces : gap.flatMap escapeChar = gap := by
      refine flatMap_eq_self fun c hc => ?_
      rw [eq_of_beq (hgap c hc)]
      rfl
    have hmore : ∀ d ∈ (rest.flatMap escapeChar ++ '"' :: suffix).head?, isBlank d = false := by
      cases rest with
      | nil =>
        rintro d ⟨⟩
        rfl
      | cons c rest =>
        rw [List.flatMap_cons, List.append_assoc]
        exact head?_escapeChar (by simpa using hhead) _
    have htail : ∀ tail, ∃ cs, gap ++ tail = ' ' :: cs := by
      intro tail
      obtain ⟨c, gap, rfl⟩ := List.exists_cons_of_ne_nil hne
      exact ⟨gap ++ tail, by rw [eq_of_beq (hgap c (by simp)), List.cons_append]⟩
    have hlength := List.length_pos_iff.2 hne
    have hcs : (word ++ gap ++ rest).flatMap escapeChar ++ '"' :: suffix =
        word.flatMap escapeChar ++ (gap ++ (rest.flatMap escapeChar ++ '"' :: suffix)) := by
      simp only [List.flatMap_append, hspaces, List.append_assoc]
    rw [hcs]
    refine @Quoted.gap '"' suffix word _ (gap ++ (rest.flatMap escapeChar ++ '"' :: suffix))
      (rest.flatMap escapeChar ++ '"' :: suffix) rest { spaces := gap } ?_ ?_ ?_ rfl ?_ ih
    · obtain ⟨cs, hcs⟩ := htail (rest.flatMap escapeChar ++ '"' :: suffix)
      rw [hcs]
      exact doubleWord?_append hword (doubleWord?_space cs)
    · obtain ⟨cs, hcs⟩ := htail (rest.flatMap escapeChar ++ '"' :: suffix)
      rw [hcs]
      rintro ⟨⟩
    · rw [hpad, Gap.read?_spaces _ rfl, Gap.read?_of_head hmore]
      rfl
    · simp only [List.length_append, List.length_cons]
      omega

theorem quotedScalar?_doubleQuoted (s suffix : List Char) :
    quotedScalar? '"' (s.flatMap escapeChar ++ '"' :: suffix) = some (s, suffix) :=
  quotedScalar?_of_quoted (quoted_doubleQuoted s suffix)

/-! ### Margins -/

theorem indentLines_word {word : List Char} (h : ∀ c ∈ word, isBreak c = false) (margin : Nat)
    (rest : List Char) :
    indentLines margin false (word ++ rest) = word ++ indentLines margin false rest := by
  induction word with
  | nil => rfl
  | cons c word ih =>
    rw [List.forall_mem_cons] at h
    rw [List.cons_append, indentLines, h.1, ih h.2]
    rfl

theorem indentLines_breaks {breaks : List Char} (h : ∀ c ∈ breaks, isBreak c = true) (margin : Nat)
    (rest : List Char) :
    indentLines margin true (breaks ++ rest) = breaks ++ indentLines margin true rest := by
  induction breaks with
  | nil => rfl
  | cons c breaks ih =>
    rw [List.forall_mem_cons] at h
    rw [List.cons_append, indentLines, if_pos h.1, ih h.2]
    rfl

theorem indentLines_break {b : Char} (h : isBreak b = true) (margin : Nat) (lineStart : Bool)
    (rest : List Char) :
    indentLines margin lineStart (b :: rest) = b :: indentLines margin true rest := by
  rw [indentLines, if_pos h]

theorem indentLines_line {c : Char} (h : isBreak c = false) (margin : Nat) (rest : List Char) :
    indentLines margin true (c :: rest) = pad margin ++ indentLines margin false (c :: rest) := by
  rw [indentLines, indentLines, h]
  rfl

/-! ### Single quotes -/

/-- A character between single quotes. -/
def escapeQuote (c : Char) : List Char := if c == '\'' then ['\'', '\''] else [c]

/-- The text between single quotes and what follows it. -/
def singleTail (margin : Nat) (suffix s : List Char) : List Char :=
  indentLines margin false (s.flatMap escapeQuote) ++
    (if s.getLast?.any isBreak then pad margin else []) ++ '\'' :: suffix

theorem singleQuoted_append (margin : Nat) (s suffix : List Char) :
    singleQuoted margin s ++ suffix = '\'' :: singleTail margin suffix s := by
  simp only [singleQuoted, singleTail, List.cons_append, List.append_assoc, List.nil_append]
  rfl

theorem singleWord_quote {suffix : List Char} (h : suffix.head? ≠ some '\'') :
    singleWord ('\'' :: suffix) = ([], '\'' :: suffix) := by
  rw [singleWord]
  · rfl
  · rintro cs - rfl
    exact h rfl

theorem singleWord_blank {c : Char} (h : isBlank c = true) (rest : List Char) :
    singleWord (c :: rest) = ([], c :: rest) := by
  rw [singleWord, h, Bool.or_true, if_pos rfl]
  rintro cs rfl
  cases h

theorem singleWord_append {word tail : List Char} (hword : ∀ c ∈ word, isBlank c = false)
    (htail : singleWord tail = ([], tail)) :
    singleWord (word.flatMap escapeQuote ++ tail) = (word, tail) := by
  induction word with
  | nil => exact htail
  | cons c word ih =>
    rw [List.forall_mem_cons] at hword
    rw [List.flatMap_cons, List.append_assoc, escapeQuote]
    split
    next hc =>
      rw [eq_of_beq hc, List.cons_append, List.cons_append, List.nil_append, singleWord,
        ih hword.2]
    next hc =>
      rw [List.singleton_append, singleWord, ih hword.2, hword.1, Bool.or_false, if_neg hc]
      rintro cs rfl
      exact absurd rfl hc

theorem hasPair_append {first second : Char → Bool} {cs ds : List Char}
    (h : hasPair first second (cs ++ ds) = false) :
    hasPair first second cs = false ∧ hasPair first second ds = false := by
  induction cs with
  | nil => exact ⟨rfl, h⟩
  | cons a cs ih =>
    cases cs with
    | nil =>
      refine ⟨rfl, ?_⟩
      cases ds with
      | nil => rfl
      | cons d ds => exact (Bool.or_eq_false_iff.1 h).2
    | cons b cs =>
      obtain ⟨hpair, hrest⟩ := Bool.or_eq_false_iff.1 h
      obtain ⟨hcs, hds⟩ := ih hrest
      exact ⟨Bool.or_eq_false_iff.2 ⟨hpair, hcs⟩, hds⟩

/-- Whether a character breaks lines and is read as itself. -/
def isSeparator (c : Char) : Bool := c == '\u2028' || c == '\u2029'

theorem isBreak_of_isSeparator {c : Char} (h : isSeparator c = true) : isBreak c = true := by
  simp only [isSeparator, isBreak, Bool.or_eq_true, beq_iff_eq] at h ⊢
  tauto

/-- The line breaks that are written as they are. -/
theorem break_cases {c : Char} (hprintable : isPrintable c = true) (hbreak : isBreak c = true) :
    c = '\n' ∨ isSeparator c = true := by
  simp only [isBreak, Bool.or_eq_true, beq_iff_eq] at hbreak
  rcases hbreak with (((rfl | rfl) | rfl) | rfl) | rfl
  · exact .inl rfl
  · cases hprintable
  · cases hprintable
  · exact .inr rfl
  · exact .inr rfl

/-- A part of a text that may be written between single quotes. -/
structure SinglePart (s : List Char) : Prop where
  printable : ∀ c ∈ s, isPrintable c = true
  newLine : '\n' ∉ s
  spaceBreak : hasSpaceBreak s = false
  breakSpace : hasBreakSpace s = false

namespace SinglePart

theorem append {s t : List Char} (h : SinglePart (s ++ t)) : SinglePart s ∧ SinglePart t := by
  obtain ⟨hsb, htb⟩ := hasPair_append h.spaceBreak
  obtain ⟨hbs, hbt⟩ := hasPair_append h.breakSpace
  exact ⟨⟨fun c hc => h.printable c (by simp [hc]), fun hc => h.newLine (by simp [hc]), hsb, hbs⟩,
    ⟨fun c hc => h.printable c (by simp [hc]), fun hc => h.newLine (by simp [hc]), htb, hbt⟩⟩

/-- The blanks in such a text are spaces and separators. -/
theorem blank {s : List Char} (h : SinglePart s) {c : Char} (hc : c ∈ s)
    (hblank : isBlank c = true) : c = ' ' ∨ isSeparator c = true := by
  rcases Bool.or_eq_true_iff.1 hblank with hgap | hbreak
  · exact .inl (eq_space_of_isPrintable (h.printable c hc) hgap)
  · refine .inr ((break_cases (h.printable c hc) hbreak).resolve_left ?_)
    rintro rfl
    exact h.newLine hc

/-- A gap consists of spaces, or of separators. -/
theorem gap {gap : List Char} (h : SinglePart gap) (hblank : ∀ c ∈ gap, isBlank c = true) :
    (∀ c ∈ gap, c = ' ') ∨ ∀ c ∈ gap, isSeparator c = true := by
  induction gap with
  | nil => exact .inl (by simp)
  | cons c gap ih =>
    rw [List.forall_mem_cons] at hblank
    have hc := h.blank (List.mem_cons_self ..) hblank.1
    simp only [List.forall_mem_cons]
    cases gap with
    | nil => exact hc.imp (fun h => ⟨h, by simp⟩) (fun h => ⟨h, by simp⟩)
    | cons d gap =>
      have hpairs := And.intro (Bool.or_eq_false_iff.1 h.spaceBreak).1
        (Bool.or_eq_false_iff.1 h.breakSpace).1
      rcases hc with rfl | hc <;>
        rcases ih (@append [_] _ h).2 hblank.2 with hgap | hgap
      · exact .inl ⟨rfl, hgap⟩
      · have hd : isBreak d = true := isBreak_of_isSeparator (hgap d (by simp))
        rw [hd] at hpairs
        exact absurd hpairs.1 (by decide)
      · rw [isBreak_of_isSeparator hc, hgap d (by simp)] at hpairs
        exact absurd hpairs.2 (by decide)
      · exact .inr ⟨hc, hgap⟩

end SinglePart

theorem Gap.read?_separator {c : Char} (h : isSeparator c = true) (indent : Int) (gap : Gap)
    (cs : List Char) : read? indent gap (c :: cs) = read? indent (gap.addBreak [c]) cs := by
  have hc : c ≠ '\r' ∧ isGap c = false := by
    simp only [isSeparator, Bool.or_eq_true, beq_iff_eq] at h
    rcases h with rfl | rfl <;> exact ⟨by decide, rfl⟩
  rw [read?, hc.2, isBreak_of_isSeparator h]
  · rw [show (c == '\u2028' || c == '\u2029') = true from h]
    rfl
  · rintro rest rfl
    exact absurd rfl hc.1

/-- Separators are read as they are, and the margin after them is not part of the text. -/
theorem Gap.read?_separators {breaks : List Char} (h : ∀ c ∈ breaks, isSeparator c = true)
    (indent : Int) {gap : Gap} (hbroken : gap.broken = true) (hcolumn : gap.column = 0)
    (cs : List Char) :
    read? indent gap (breaks ++ cs) =
      read? indent { gap with otherBreaks := gap.otherBreaks ++ breaks } cs := by
  induction breaks generalizing gap with
  | nil => simp
  | cons c breaks ih =>
    rw [List.forall_mem_cons] at h
    rw [List.cons_append, read?_separator h.1]
    have hadd : gap.addBreak [c] = { gap with otherBreaks := gap.otherBreaks ++ [c] } := by
      rw [addBreak, if_pos hbroken, ← hcolumn]
    rw [hadd, @ih h.2 { gap with otherBreaks := gap.otherBreaks ++ [c] } hbroken hcolumn,
      List.append_assoc, List.singleton_append]

/-- The same for the line breaks that open a gap. -/
theorem Gap.read?_separators_pad {breaks : List Char} (hne : breaks ≠ [])
    (h : ∀ c ∈ breaks, isSeparator c = true) (indent : Int) (margin : Nat) {cs : List Char}
    (hcs : ∀ c ∈ cs.head?, isBlank c = false) :
    ∃ gap, read? indent {} (breaks ++ (pad margin ++ cs)) = some (gap, cs) ∧ gap.fold = breaks ∧
      gap.atLineStart = (margin == 0) := by
  obtain ⟨c, breaks, rfl⟩ := List.exists_cons_of_ne_nil hne
  rw [List.forall_mem_cons] at h
  have hc : c ≠ '\n' := by
    rintro rfl
    exact absurd h.1 (by decide)
  refine ⟨{ firstBreak := [c], otherBreaks := breaks, broken := true, column := margin }, ?_, ?_, ?_⟩
  · rw [List.cons_append, read?_separator h.1, addBreak, if_neg (by simp),
      read?_separators h.2 _ rfl rfl, read?_margin _ rfl, read?_of_head hcs]
    simp
  · simp [fold, hc]
  · simp [atLineStart]

theorem escapeQuote_of_isBlank {c : Char} (h : isBlank c = true) : escapeQuote c = [c] := by
  rw [escapeQuote, if_neg]
  rintro hc
  rw [eq_of_beq hc] at h
  cases h

theorem isBreak_escapeQuote {s : List Char} (h : ∀ c ∈ s, isBreak c = false) :
    ∀ c ∈ s.flatMap escapeQuote, isBreak c = false := by
  intro c hc
  obtain ⟨d, hd, hcd⟩ := List.mem_flatMap.1 hc
  rw [escapeQuote] at hcd
  split at hcd
  · rw [show c = '\'' by simpa using hcd]
    rfl
  · rw [List.mem_singleton.1 hcd]
    exact h d hd

theorem singleTail_word {word : List Char} (hword : ∀ c ∈ word, isBreak c = false) (margin : Nat)
    (suffix s : List Char) :
    singleTail margin suffix (word ++ s) =
      word.flatMap escapeQuote ++ singleTail margin suffix s := by
  have hlast : (word ++ s).getLast?.any isBreak = s.getLast?.any isBreak := by
    cases s with
    | nil =>
      rw [List.append_nil, List.getLast?_nil, Option.any_none, Option.any_eq_false]
      exact fun c hc => hword c (List.mem_of_getLast? hc)
    | cons c s => rw [List.getLast?_append_of_ne_nil _ (List.cons_ne_nil c s)]
  rw [singleTail, singleTail, List.flatMap_append, indentLines_word (isBreak_escapeQuote hword),
    hlast]
  simp only [List.append_assoc]

theorem singleTail_separators {breaks : List Char} (hne : breaks ≠ [])
    (h : ∀ c ∈ breaks, isSeparator c = true) (margin : Nat) (suffix : List Char) {s : List Char}
    (hs : ∀ c ∈ s.head?, isBlank c = false) :
    singleTail margin suffix (breaks ++ s) =
      breaks ++ (pad margin ++ singleTail margin suffix s) := by
  have hbreak : ∀ c ∈ breaks, isBreak c = true := fun c hc => isBreak_of_isSeparator (h c hc)
  have hself : breaks.flatMap escapeQuote = breaks :=
    flatMap_eq_self fun c hc => escapeQuote_of_isBlank (by rw [isBlank, hbreak c hc, Bool.or_true])
  have hindent : ∀ rest, indentLines margin false (breaks ++ rest) =
      breaks ++ indentLines margin true rest := by
    intro rest
    obtain ⟨c, breaks, rfl⟩ := List.exists_cons_of_ne_nil hne
    rw [List.forall_mem_cons] at hbreak
    rw [List.cons_append, indentLines_break hbreak.1, indentLines_breaks hbreak.2]
    rfl
  rw [singleTail, singleTail, List.flatMap_append, hself, hindent]
  cases s with
  | nil =>
    have hlast : breaks.getLast?.any isBreak = true := by
      rw [List.getLast?_eq_some_getLast hne, Option.any_some]
      exact hbreak _ (List.getLast_mem hne)
    simp [hlast, indentLines]
  | cons c s =>
    have hc : isBreak c = false := (Bool.or_eq_false_iff.1 (hs c rfl)).2
    obtain ⟨d, ds, hd, hds⟩ : ∃ d ds, escapeQuote c = d :: ds ∧ isBreak d = false := by
      rw [escapeQuote]
      split
      · exact ⟨_, _, rfl, rfl⟩
      · exact ⟨_, _, rfl, hc⟩
    rw [List.flatMap_cons, hd, List.cons_append, indentLines_line hds,
      List.getLast?_append_of_ne_nil _ (List.cons_ne_nil c s)]
    simp only [List.append_assoc]

theorem head?_singleTail {s : List Char} (hs : ∀ c ∈ s.head?, isBlank c = false) (margin : Nat)
    (suffix : List Char) : ∀ c ∈ (singleTail margin suffix s).head?, isBlank c = false := by
  cases s with
  | nil =>
    rintro c ⟨⟩
    rfl
  | cons d s =>
    have hd := hs d rfl
    have hword : ∀ c ∈ [d], isBreak c = false := by
      simpa using (Bool.or_eq_false_iff.1 hd).2
    rw [show d :: s = [d] ++ s from rfl, singleTail_word hword, List.flatMap_singleton, escapeQuote]
    rintro c hc
    split at hc
    · cases hc
      rfl
    · cases hc
      exact hd

theorem quotedWord?_single {cs word rest : List Char} (h : singleWord cs = (word, rest)) :
    quotedWord? '\'' cs = some (word, false, rest) := by
  rw [quotedWord?, if_neg (by decide), h]

/-- A text between single quotes is read back. -/
theorem quoted_singleQuoted {s suffix : List Char} (hs : SinglePart s) {margin : Nat}
    (hmargin : (∀ c ∈ s, isBreak c = false) ∨ 0 < margin) (hsuffix : suffix.head? ≠ some '\'') :
    Quoted '\'' suffix s (singleTail margin suffix s) := by
  induction chunks isBlank s with
  | @word word hword =>
    have hbreak : ∀ c ∈ word, isBreak c = false := fun c hc =>
      (Bool.or_eq_false_iff.1 (hword c hc)).2
    have htail := singleTail_word hbreak margin suffix []
    rw [List.append_nil] at htail
    rw [htail]
    exact .close (by simp [singleTail])
      (quotedWord?_single (singleWord_append hword (singleWord_quote hsuffix)))
  | @gap word gap rest hword hne hgap hhead hrest ih =>
    have hbreak : ∀ c ∈ word, isBreak c = false := fun c hc =>
      (Bool.or_eq_false_iff.1 (hword c hc)).2
    have hpart := hs.append.1.append.2
    have hmore := head?_singleTail hhead margin suffix
    have hread : ∀ tail, quotedWord? '\'' (word.flatMap escapeQuote ++ (gap ++ tail)) =
        some (word, false, gap ++ tail) := by
      intro tail
      obtain ⟨c, gap, rfl⟩ := List.exists_cons_of_ne_nil hne
      exact quotedWord?_single (singleWord_append hword (singleWord_blank (hgap c (by simp)) _))
    have hquote : ∀ tail, (gap ++ tail).head? ≠ some '\'' := by
      intro tail
      obtain ⟨c, gap, rfl⟩ := List.exists_cons_of_ne_nil hne
      rintro ⟨⟩
      exact absurd (hgap '\'' (by simp)) (by decide)
    have hlength := List.length_pos_iff.2 hne
    have ih := ih hs.append.2 (hmargin.imp_left fun h c hc => h c (by simp [hc]))
    rw [List.append_assoc, singleTail_word hbreak]
    rcases hpart.gap hgap with hspaces | hseparators
    · have hself : gap.flatMap escapeQuote = gap :=
        flatMap_eq_self fun c hc => escapeQuote_of_isBlank (hgap c hc)
      rw [singleTail_word (by intro c hc; rw [hspaces c hc]; rfl), hself, ← List.append_assoc word]
      refine @Quoted.gap '\'' suffix word _ _ (singleTail margin suffix rest) rest
        { spaces := gap } (hread _) (hquote _) ?_ rfl ?_ ih
      · rw [eq_pad hspaces, Gap.read?_spaces _ rfl, Gap.read?_of_head hmore]
        rfl
      · simp only [List.length_append]
        omega
    · rw [singleTail_separators hne hseparators margin suffix hhead, ← List.append_assoc word]
      obtain ⟨found, hfound, hfold, hline⟩ :=
        Gap.read?_separators_pad hne hseparators 0 margin hmore
      have hpos : 0 < margin := by
        refine hmargin.resolve_left fun h => ?_
        obtain ⟨c, gap, rfl⟩ := List.exists_cons_of_ne_nil hne
        have hc := isBreak_of_isSeparator (hseparators c (by simp))
        rw [h c (by simp)] at hc
        cases hc
      rw [← hfold] at hread hquote hfound ⊢
      refine .gap (hread _) (hquote _) hfound ?_ ?_ ih
      · rw [hline]
        simpa using Nat.ne_of_gt hpos
      · rw [hfold]
        simp only [List.length_append]
        omega

theorem singlePart_of_singleAllowed {s : List Char} (hs : singleAllowed s = true)
    (hnewLine : '\n' ∉ s) : SinglePart s := by
  simp only [singleAllowed, hasUnprintable, Bool.and_eq_true, Bool.not_eq_true'] at hs
  obtain ⟨⟨hbreakSpace, hspaceBreak⟩, hprintable⟩ := hs
  rw [List.any_eq_false] at hprintable
  exact ⟨fun c hc => by simpa using hprintable c hc, hnewLine, hspaceBreak, hbreakSpace⟩

theorem quotedScalar?_singleQuoted {s suffix : List Char} (hs : singleAllowed s = true)
    (hnewLine : '\n' ∉ s) {margin : Nat}
    (hmargin : (∀ c ∈ s, isBreak c = false) ∨ 0 < margin) (hsuffix : suffix.head? ≠ some '\'') :
    quotedScalar? '\'' (singleTail margin suffix s) = some (s, suffix) :=
  quotedScalar?_of_quoted
    (quoted_singleQuoted (singlePart_of_singleAllowed hs hnewLine) hmargin hsuffix)

end SourceAtlas.Yaml
