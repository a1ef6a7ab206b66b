import Mathlib.Data.List.DropRight
import Mathlib.Tactic
import SourceAtlas.Json.Reader
import SourceAtlas.Json.Writer

/-!
# Spellings of JSON values

`Json.Spells` says which texts spell a value: the parts of an array or an object may have any gaps
around them. Both layouts of the writer are spellings, and the reader takes every spelling back to
its value.
-/

namespace SourceAtlas.Json

open Text

/-! ### Gaps -/

/-- Whether a text consists of gap characters. -/
def IsGap (text : List Char) : Prop := ∀ c ∈ text, isGap c = true

theorem isGap_nil : IsGap [] := by simp [IsGap]

theorem isGap_newLine (depth : Nat) : IsGap (newLine depth) := by
  intro c hc
  rcases List.mem_cons.1 hc with rfl | hc
  · rfl
  · rw [List.eq_of_mem_replicate hc]
    rfl

theorem skipGap_append {gap : List Char} (hgap : IsGap gap) (rest : List Char) :
    skipGap (gap ++ rest) = skipGap rest :=
  List.dropWhile_append_of_pos hgap

theorem skipGap_cons {c : Char} (hc : isGap c = false) (rest : List Char) :
    skipGap (c :: rest) = c :: rest := by
  simp [skipGap, hc]

/-- Leading gaps do not matter to the readers of values and of items. -/
theorem value?_skipGap (bound : Nat) (cs : List Char) :
    value? bound (skipGap cs) = value? bound cs := by
  cases bound with
  | zero => rfl
  | succ bound =>
    have hskip : skipGap (skipGap cs) = skipGap cs := List.dropWhile_idempotent _ _
    simp only [value?, hskip]

theorem value?_append {gap : List Char} (hgap : IsGap gap) (bound : Nat) (rest : List Char) :
    value? bound (gap ++ rest) = value? bound rest := by
  rw [← value?_skipGap, skipGap_append hgap, value?_skipGap]

theorem items?_skipGap (bound : Nat) (cs : List Char) :
    items? bound (skipGap cs) = items? bound cs := by
  cases bound with
  | zero => rfl
  | succ bound => simp only [items?, value?_skipGap]

theorem members?_skipGap (bound : Nat) (cs : List Char) :
    members? bound (skipGap cs) = members? bound cs := by
  cases bound with
  | zero => rfl
  | succ bound =>
    have hskip : skipGap (skipGap cs) = skipGap cs := List.dropWhile_idempotent _ _
    simp only [members?, hskip]

/-! ### Strings -/

/-- A control character is read back from its four digits. -/
theorem hex4?_digitChar {n : Nat} (h : n < 0x20) :
    hex4? '0' '0' (Nat.digitChar (n / 16)) (Nat.digitChar (n % 16)) = some n := by
  have hall : ∀ m < 0x20,
      hex4? '0' '0' (Nat.digitChar (m / 16)) (Nat.digitChar (m % 16)) = some m := by decide
  exact hall n h

theorem stringTail?_letter {letter c : Char} (hletter : letter ≠ 'u') (h : escaped? letter = some c)
    (rest : List Char) :
    stringTail? none ('\\' :: letter :: rest) =
      (stringTail? none rest).map fun (text, rest) => (text.map (c :: ·), rest) := by
  rw [stringTail?]
  · simp [h, Option.map_eq_bind]
  · intro _ _ _ _ _ hu
    exact absurd hu hletter

theorem stringTail?_plain {c : Char} (hquote : c ≠ '"') (hslash : c ≠ '\\') (hc : ¬ c.toNat < 0x20)
    (rest : List Char) :
    stringTail? none (c :: rest) =
      (stringTail? none rest).map fun (text, rest) => (text.map (c :: ·), rest) := by
  rw [stringTail?.eq_def]
  split <;> simp_all [Option.map_eq_bind]

theorem stringTail?_control {c : Char} (hc : c.toNat < 0x20) (rest : List Char) :
    stringTail? none ('\\' :: 'u' :: '0' :: '0' :: Nat.digitChar (c.toNat / 16) ::
        Nat.digitChar (c.toNat % 16) :: rest) =
      (stringTail? none rest).map fun (text, rest) => (text.map (c :: ·), rest) := by
  have hhigh : isHighSurrogate c.toNat = false := by simp [isHighSurrogate]; omega
  have hlow : isLowSurrogate c.toNat = false := by simp [isLowSurrogate]; omega
  simp [stringTail?, hex4?_digitChar hc, hhigh, hlow, Option.map_eq_bind]

/-- A written character is read back. -/
theorem stringTail?_escapeChar (c : Char) (rest : List Char) :
    stringTail? none (escapeChar c ++ rest) =
      (stringTail? none rest).map fun (text, rest) => (text.map (c :: ·), rest) := by
  unfold escapeChar
  split
  case h_8 hquote hslash _ _ _ _ _ =>
    split
    · next hc => exact stringTail?_control hc rest
    · next hc => exact stringTail?_plain hquote hslash hc rest
  all_goals exact stringTail?_letter (by decide) rfl rest

theorem stringTail?_quoted (s rest : List Char) :
    stringTail? none (s.flatMap escapeChar ++ '"' :: rest) = some (some s, rest) := by
  induction s with
  | nil => simp [stringTail?]
  | cons c s ih => simp [List.flatMap_cons, List.append_assoc, stringTail?_escapeChar, ih]

/-! ### Numbers -/

/-- Whether a text cannot go on with a number: it is at its end, or goes on with a gap, a comma or
a closing bracket. -/
def EndsNumber (rest : List Char) : Prop :=
  ∀ c ∈ rest.head?, isGap c = true ∨ c = ',' ∨ c = ']' ∨ c = '}'

theorem endsNumber_nil : EndsNumber [] := by simp [EndsNumber]

theorem endsNumber_cons {c : Char} (h : c = ',' ∨ c = ']' ∨ c = '}') (rest : List Char) :
    EndsNumber (c :: rest) := by
  simpa [EndsNumber] using Or.inr h

/-- A gap keeps apart what a number could run into. -/
theorem EndsNumber.gap {gap rest : List Char} (hgap : IsGap gap) (h : EndsNumber rest) :
    EndsNumber (gap ++ rest) := by
  cases gap with
  | nil => exact h
  | cons c gap => simpa [EndsNumber] using Or.inl (hgap c (by simp))

theorem EndsNumber.head {c : Char} {rest : List Char} (h : EndsNumber (c :: rest)) :
    c.isDigit = false ∧ c ≠ '.' ∧ c ≠ 'e' ∧ c ≠ 'E' := by
  have hc := h c (by simp)
  simp only [isGap, Bool.or_eq_true, beq_iff_eq] at hc
  rcases hc with (((rfl | rfl) | rfl) | rfl) | rfl | rfl | rfl <;> decide

theorem decimalValue_toDigits (n : Nat) : decimalValue (Nat.toDigits 10 n) = n := by
  have h := Nat.ofDigitChars_toDigits (b := 10) (n := n) (by decide) (by decide)
  simpa only [decimalValue, Nat.ofDigitChars, Nat.mul_comm] using h

theorem exists_toDigits (n : Nat) : ∃ c cs, Nat.toDigits 10 n = c :: cs ∧ c.isDigit = true := by
  obtain ⟨c, cs, htext⟩ := List.exists_cons_of_ne_nil (Nat.toDigits_ne_nil (n := n) (b := 10))
  have hmem : c ∈ Nat.toDigits 10 n := by simp [htext]
  exact ⟨c, cs, htext, Nat.isDigit_of_mem_toDigits (by decide) (by decide) hmem⟩

/-- The first digit of a positive number is not zero. -/
theorem head_toDigits {n : Nat} (h : 0 < n) : (Nat.toDigits 10 n).head? ≠ some '0' := by
  induction n using Nat.strongRecOn with
  | ind n ih =>
    rw [Nat.toDigits_eq_if (by decide)]
    split
    · next hlt =>
      have hall : ∀ m < 10, 0 < m → [Nat.digitChar m].head? ≠ some '0' := by decide
      exact hall n hlt h
    · next hge =>
      rw [List.head?_append_of_ne_nil _ Nat.toDigits_ne_nil]
      exact ih (n / 10) (by omega) (by omega)

theorem digits?_toDigits (n : Nat) {rest : List Char} (hrest : EndsNumber rest) :
    digits? (Nat.toDigits 10 n ++ rest) = some (Nat.toDigits 10 n, rest) := by
  have hdigits : ∀ c ∈ Nat.toDigits 10 n, c.isDigit = true := fun c hc =>
    Nat.isDigit_of_mem_toDigits (by decide) (by decide) hc
  have hstop : rest.takeWhile Char.isDigit = [] ∧ rest.dropWhile Char.isDigit = rest := by
    cases rest with
    | nil => simp
    | cons c rest => simp [hrest.head.1]
  unfold digits?
  rw [List.takeWhile_append_of_pos hdigits, List.dropWhile_append_of_pos hdigits, hstop.1, hstop.2,
    List.append_nil]
  obtain ⟨c, cs, htext, -⟩ := exists_toDigits n
  rw [htext]

theorem whole?_toDigits (n : Nat) {rest : List Char} (hrest : EndsNumber rest) :
    whole? (Nat.toDigits 10 n ++ rest) = some (Nat.toDigits 10 n, rest) := by
  unfold whole?
  rw [digits?_toDigits n hrest]
  split
  · next c cs _ htext =>
    have htext : Nat.toDigits 10 n = '0' :: c :: cs := by simp_all
    rcases Nat.eq_zero_or_pos n with rfl | hpos
    · simp at htext
    · exact absurd (by rw [htext]; rfl) (head_toDigits hpos)
  · rfl

theorem number?_toDigits (n : Nat) {rest : List Char} (hrest : EndsNumber rest) :
    number? (Nat.toDigits 10 n ++ rest) = some (.natural n, rest) := by
  have hfraction : fraction? rest = some (false, rest) := by
    cases rest with
    | nil => rfl
    | cons c rest =>
      unfold fraction?
      split
      · next h => exact absurd (List.cons.inj h).1 hrest.head.2.1
      · rfl
  have hexponent : exponent? rest = some (false, rest) := by
    cases rest with
    | nil => rfl
    | cons c rest => simp [exponent?, hrest.head.2.2.1, hrest.head.2.2.2]
  have hwhole := whole?_toDigits n hrest
  have hvalue := decimalValue_toDigits n
  obtain ⟨c, cs, htext, hc⟩ := exists_toDigits n
  have hsign : c ≠ '-' := by rintro rfl; cases hc
  rw [htext] at hwhole hvalue ⊢
  rw [List.cons_append] at hwhole
  simp [number?, hsign, hwhole, hfraction, hexponent, hvalue]

/-! ### Spellings -/

mutual

/-- A text spells a value. -/
inductive Spells : Json → List Char → Prop
  | null : Spells .null "null".toList
  | truth (b : Bool) : Spells (.truth b) (if b then "true" else "false").toList
  | natural (n : Nat) : Spells (.natural n) (Nat.toDigits 10 n)
  | string (s : List Char) : Spells (.string (some s)) (quoted s)
  | emptyArray : Spells (.array []) ['[', ']']
  | array {items : List Json} {text : List Char} (h : SpellsItems items text) :
      Spells (.array items) ('[' :: (text ++ [']']))
  | emptyObject : Spells (.object []) ['{', '}']
  | object {members : List (Option (List Char) × Json)} {text : List Char}
      (h : SpellsMembers members text) : Spells (.object members) ('{' :: (text ++ ['}']))

/-- A text spells items with gaps around them and commas between them. -/
inductive SpellsItems : List Json → List Char → Prop
  | last {item : Json} {before text after : List Char} (hbefore : IsGap before)
      (hafter : IsGap after) (h : Spells item text) : SpellsItems [item] (before ++ text ++ after)
  | more {item : Json} {items : List Json} {before text others : List Char}
      (hbefore : IsGap before) (h : Spells item text) (hothers : SpellsItems items others) :
      SpellsItems (item :: items) (before ++ text ++ ',' :: others)

/-- A text spells members with gaps around them and commas between them. -/
inductive SpellsMembers : List (Option (List Char) × Json) → List Char → Prop
  | last {name : List Char} {value : Json} {before between text after : List Char}
      (hbefore : IsGap before) (hbetween : IsGap between) (hafter : IsGap after)
      (h : Spells value text) :
      SpellsMembers [(some name, value)] (before ++ quoted name ++ ':' :: (between ++ text ++ after))
  | more {name : List Char} {value : Json} {members : List (Option (List Char) × Json)}
      {before between text others : List Char} (hbefore : IsGap before) (hbetween : IsGap between)
      (h : Spells value text) (hothers : SpellsMembers members others) :
      SpellsMembers ((some name, value) :: members)
        (before ++ quoted name ++ ':' :: (between ++ text ++ ',' :: others))

end

/-- A spelling starts with a character that is neither a gap nor a closing bracket. -/
theorem Spells.exists_cons {value : Json} {text : List Char} (h : Spells value text) :
    ∃ c rest, text = c :: rest ∧ isGap c = false ∧ c ≠ ']' := by
  cases h with
  | null => exact ⟨_, _, rfl, by decide, by decide⟩
  | truth b => cases b <;> exact ⟨_, _, rfl, by decide, by decide⟩
  | natural n =>
    obtain ⟨c, cs, htext, hc⟩ := exists_toDigits n
    refine ⟨c, cs, htext, ?_, by rintro rfl; cases hc⟩
    rw [Bool.eq_false_iff]
    intro hgap
    simp only [isGap, Bool.or_eq_true, beq_iff_eq] at hgap
    rcases hgap with ((rfl | rfl) | rfl) | rfl <;> cases hc
  | string s => exact ⟨_, _, rfl, by decide, by decide⟩
  | emptyArray => exact ⟨_, _, rfl, by decide, by decide⟩
  | array => exact ⟨_, _, rfl, by decide, by decide⟩
  | emptyObject => exact ⟨_, _, rfl, by decide, by decide⟩
  | object => exact ⟨_, _, rfl, by decide, by decide⟩

theorem SpellsItems.exists_skipGap {items : List Json} {text : List Char}
    (h : SpellsItems items text) (rest : List Char) :
    ∃ c cs, skipGap (text ++ rest) = c :: cs ∧ c ≠ ']' := by
  cases h with
  | last hbefore _ h | more hbefore h _ =>
    obtain ⟨c, cs, rfl, hgap, hc⟩ := h.exists_cons
    rw [List.append_assoc, List.append_assoc, skipGap_append hbefore, List.cons_append,
      skipGap_cons hgap]
    exact ⟨c, _, rfl, hc⟩

theorem SpellsMembers.exists_skipGap {members : List (Option (List Char) × Json)}
    {text : List Char} (h : SpellsMembers members text) (rest : List Char) :
    ∃ cs, skipGap (text ++ rest) = '"' :: cs := by
  cases h with
  | last hbefore | more hbefore =>
    rw [List.append_assoc, List.append_assoc, skipGap_append hbefore, quoted, List.cons_append,
      List.cons_append, skipGap_cons (by decide)]
    exact ⟨_, rfl⟩

/-! ### Reading spellings -/

theorem word?_toDigits (n : Nat) (rest : List Char) : word? (Nat.toDigits 10 n ++ rest) = none := by
  obtain ⟨c, cs, htext, hc⟩ := exists_toDigits n
  have hne : ∀ d : Char, d.isDigit = false → d ≠ c := by
    rintro d hd rfl
    rw [hc] at hd
    cases hd
  simp [word?, htext, List.isPrefixOf?, hne 'n' rfl, hne 't' rfl, hne 'f' rfl]

theorem value?_toDigits (bound n : Nat) {rest : List Char} (hrest : EndsNumber rest) :
    value? (bound + 1) (Nat.toDigits 10 n ++ rest) = some (.natural n, rest) := by
  obtain ⟨c, cs, htext, hgap, -⟩ := (Spells.natural n).exists_cons
  have hc : c.isDigit = true := by
    obtain ⟨d, ds, hd, hdigit⟩ := exists_toDigits n
    rw [htext] at hd
    rwa [(List.cons.inj hd).1]
  have hskip : skipGap (Nat.toDigits 10 n ++ rest) = Nat.toDigits 10 n ++ rest := by
    rw [htext, List.cons_append, skipGap_cons hgap]
  unfold value?
  rw [hskip]
  split
  case h_4 => rw [word?_toDigits, Option.none_or, number?_toDigits n hrest]
  all_goals
    next h =>
      rw [htext, List.cons_append] at h
      rw [(List.cons.inj h).1] at hc
      cases hc

mutual

/-- The reader takes a spelling back to its value. -/
theorem value?_of_spells {value : Json} {text : List Char} (h : Spells value text) (bound : Nat)
    (hbound : text.length ≤ bound) {rest : List Char} (hrest : EndsNumber rest) :
    value? bound (text ++ rest) = some (value, rest) := by
  obtain ⟨bound, rfl⟩ : ∃ n, bound = n + 1 := by
    obtain ⟨c, cs, rfl, -⟩ := h.exists_cons
    exact ⟨bound - 1, by simp at hbound; omega⟩
  cases h with
  | null => rfl
  | truth b => cases b <;> rfl
  | natural n => exact value?_toDigits bound n hrest
  | string s =>
    simp only [quoted, List.cons_append, List.append_assoc, value?, List.nil_append]
    rw [skipGap_cons (by decide)]
    simp [stringTail?_quoted]
  | emptyArray => rfl
  | @array items text h =>
    have hitems := items?_of_spells h bound (by simp at hbound; omega) rest
    obtain ⟨c, cs, hstart, hc⟩ := h.exists_skipGap (']' :: rest)
    simp only [List.cons_append, List.append_assoc, List.nil_append, value?]
    rw [skipGap_cons (by decide)]
    rw [← items?_skipGap, hstart] at hitems
    simp [hstart, hc, hitems]
  | emptyObject => rfl
  | @object members text h =>
    have hmembers := members?_of_spells h bound (by simp at hbound; omega) rest
    obtain ⟨cs, hstart⟩ := h.exists_skipGap ('}' :: rest)
    simp only [List.cons_append, List.append_assoc, List.nil_append, value?]
    rw [skipGap_cons (by decide)]
    rw [← members?_skipGap, hstart] at hmembers
    simp [hstart, hmembers]

/-- The same for items. -/
theorem items?_of_spells {items : List Json} {text : List Char} (h : SpellsItems items text)
    (bound : Nat) (hbound : text.length < bound) (rest : List Char) :
    items? bound (text ++ ']' :: rest) = some (items, rest) := by
  obtain ⟨bound, rfl⟩ : ∃ n, bound = n + 1 := ⟨bound - 1, by omega⟩
  cases h with
  | @last item before text after hbefore hafter h =>
    have hitem := value?_of_spells h bound (by simp at hbound; omega)
      ((endsNumber_cons (.inr (.inl rfl)) rest).gap hafter)
    have hclose : skipGap (after ++ ']' :: rest) = ']' :: rest := by
      rw [skipGap_append hafter, skipGap_cons (by decide)]
    simp only [items?, List.append_assoc]
    rw [value?_append hbefore, hitem]
    simp [hclose]
  | @more item items before text others hbefore h hothers =>
    have hitem := value?_of_spells h bound (by simp at hbound; omega)
      (endsNumber_cons (.inl rfl) (others ++ ']' :: rest))
    have hitems := items?_of_spells hothers bound (by simp at hbound; omega) rest
    simp only [items?, List.append_assoc, List.cons_append]
    rw [value?_append hbefore, hitem]
    simp [skipGap_cons (c := ',') (by decide), hitems]

/-- The same for members. -/
theorem members?_of_spells {members : List (Option (List Char) × Json)} {text : List Char}
    (h : SpellsMembers members text) (bound : Nat) (hbound : text.length < bound)
    (rest : List Char) : members? bound (text ++ '}' :: rest) = some (members, rest) := by
  obtain ⟨bound, rfl⟩ : ∃ n, bound = n + 1 := ⟨bound - 1, by omega⟩
  cases h with
  | @last name value before between text after hbefore hbetween hafter h =>
    have hvalue := value?_of_spells h bound (by simp at hbound; omega)
      ((endsNumber_cons (.inr (.inr rfl)) rest).gap hafter)
    have hclose : skipGap (after ++ '}' :: rest) = '}' :: rest := by
      rw [skipGap_append hafter, skipGap_cons (by decide)]
    rw [← value?_append hbetween] at hvalue
    simp only [members?, List.append_assoc, skipGap_append hbefore, List.cons_append, quoted,
      skipGap_cons (c := '"') (by decide), stringTail?_quoted, List.nil_append]
    simp [skipGap_cons (c := ':') (by decide), hvalue, hclose]
  | @more name value members before between text others hbefore hbetween h hothers =>
    have hvalue := value?_of_spells h bound (by simp at hbound; omega)
      (endsNumber_cons (.inl rfl) (others ++ '}' :: rest))
    have hmembers := members?_of_spells hothers bound (by simp at hbound; omega) rest
    rw [← value?_append hbetween] at hvalue
    simp only [members?, List.append_assoc, skipGap_append hbefore, List.cons_append, quoted,
      skipGap_cons (c := '"') (by decide), stringTail?_quoted, List.nil_append]
    simp [skipGap_cons (c := ':') (by decide), skipGap_cons (c := ',') (by decide), hvalue, hmembers]

end

/-- A text that spells a value holds that value. -/
theorem parse?_of_spells {value : Json} {text : List Char} (h : Spells value text) :
    parse? text = some value := by
  have hread := value?_of_spells h (text.length + 1) (by omega) endsNumber_nil
  rw [List.append_nil] at hread
  simp [parse?, hread, skipGap]

/-! ### Written values -/

mutual

/-- Whether a value is all that its text says: it holds no number whose digits are not kept and no
string without characters. -/
def Definite : Json → Prop
  | .real => False
  | .string none => False
  | .array items => DefiniteItems items
  | .object members => DefiniteMembers members
  | _ => True

/-- Whether all items are definite. -/
def DefiniteItems : List Json → Prop
  | [] => True
  | item :: items => Definite item ∧ DefiniteItems items

/-- Whether all members are definite and have names. -/
def DefiniteMembers : List (Option (List Char) × Json) → Prop
  | [] => True
  | (name, value) :: members => name.isSome = true ∧ Definite value ∧ DefiniteMembers members

end

mutual

/-- A value on one line is a spelling of the value. -/
theorem spells_compact : (value : Json) → Definite value → Spells value (compact value)
  | .null, _ => .null
  | .truth b, _ => .truth b
  | .natural n, _ => .natural n
  | .string (some s), _ => .string s
  | .array [], _ => .emptyArray
  | .array (item :: items), h => .array (spellsItems_compact (item :: items) (by simp) h)
  | .object [], _ => .emptyObject
  | .object (member :: members), h =>
    .object (spellsMembers_compact (member :: members) (by simp) h)

theorem spellsItems_compact : (items : List Json) → items ≠ [] → DefiniteItems items →
    SpellsItems items (compactItems items)
  | [item], _, h => by
    simpa [compactItems] using SpellsItems.last isGap_nil isGap_nil (spells_compact item h.1)
  | item :: next :: items, _, h => by
    have hothers := spellsItems_compact (next :: items) (by simp) h.2
    simpa [compactItems] using SpellsItems.more isGap_nil (spells_compact item h.1) hothers

theorem spellsMembers_compact : (members : List (Option (List Char) × Json)) → members ≠ [] →
    DefiniteMembers members → SpellsMembers members (compactMembers members)
  | [(some name, value)], _, h => by
    simpa [compactMembers] using
      SpellsMembers.last isGap_nil isGap_nil isGap_nil (spells_compact value h.2.1)
  | (some name, value) :: next :: members, _, h => by
    have hothers := spellsMembers_compact (next :: members) (by simp) h.2.2
    simpa [compactMembers] using
      SpellsMembers.more isGap_nil isGap_nil (spells_compact value h.2.1) hothers

end

theorem isGap_space : IsGap [' '] := by simp [IsGap, isGap]

mutual

/-- A value on several lines is a spelling of the value. -/
theorem spells_pretty (depth : Nat) :
    (value : Json) → Definite value → Spells value (pretty depth value)
  | .null, _ => .null
  | .truth b, _ => .truth b
  | .natural n, _ => .natural n
  | .string (some s), _ => .string s
  | .array [], _ => .emptyArray
  | .array (item :: items), h => by
    have hitems := spellsItems_pretty (depth + 1) (newLine depth) (isGap_newLine depth)
      (item :: items) (by simp) h
    simpa [pretty] using Spells.array hitems
  | .object [], _ => .emptyObject
  | .object (member :: members), h => by
    have hmembers := spellsMembers_pretty (depth + 1) (newLine depth) (isGap_newLine depth)
      (member :: members) (by simp) h
    simpa [pretty] using Spells.object hmembers

theorem spellsItems_pretty (depth : Nat) (after : List Char) (hafter : IsGap after) :
    (items : List Json) → items ≠ [] → DefiniteItems items →
    SpellsItems items (prettyItems depth items ++ after)
  | [item], _, h => by
    simpa [prettyItems] using
      SpellsItems.last (isGap_newLine depth) hafter (spells_pretty depth item h.1)
  | item :: next :: items, _, h => by
    have hothers := spellsItems_pretty depth after hafter (next :: items) (by simp) h.2
    simpa [prettyItems] using
      SpellsItems.more (isGap_newLine depth) (spells_pretty depth item h.1) hothers

theorem spellsMembers_pretty (depth : Nat) (after : List Char) (hafter : IsGap after) :
    (members : List (Option (List Char) × Json)) → members ≠ [] → DefiniteMembers members →
    SpellsMembers members (prettyMembers depth members ++ after)
  | [(some name, value)], _, h => by
    simpa [prettyMembers] using
      SpellsMembers.last (isGap_newLine depth) isGap_space hafter (spells_pretty depth value h.2.1)
  | (some name, value) :: next :: members, _, h => by
    have hothers := spellsMembers_pretty depth after hafter (next :: members) (by simp) h.2.2
    simpa [prettyMembers] using
      SpellsMembers.more (isGap_newLine depth) isGap_space (spells_pretty depth value h.2.1) hothers

end

end SourceAtlas.Json
