/-!
# Blank characters and trimming

`isBlank` is the Unicode property `White_Space`. `trimStart`, `trimEnd` and `trim` remove blank
characters from the ends of a text, which is a list of characters throughout this library.
-/

namespace SourceAtlas.Text

/-- The characters with the Unicode property `White_Space`. -/
def isBlank (c : Char) : Bool :=
  let n := c.toNat
  (0x09 ≤ n && n ≤ 0x0d) || n == 0x20 || n == 0x85 || n == 0xa0 || n == 0x1680 ||
    (0x2000 ≤ n && n ≤ 0x200a) || n == 0x2028 || n == 0x2029 || n == 0x202f || n == 0x205f ||
    n == 0x3000

/-- Removes the blank characters at the start. -/
def trimStart (cs : List Char) : List Char := cs.dropWhile isBlank

/-- Removes the longest end whose characters all satisfy `p`. -/
def dropEndWhile (p : Char → Bool) (cs : List Char) : List Char :=
  (cs.reverse.dropWhile p).reverse

/-- Removes the blank characters at the end. -/
def trimEnd (cs : List Char) : List Char := dropEndWhile isBlank cs

/-- Removes the blank characters at both ends. -/
def trim (cs : List Char) : List Char := trimEnd (trimStart cs)

/-- A text, unless it is empty. -/
def nonEmpty? (cs : List Char) : Option (List Char) :=
  if cs.isEmpty then none else some cs

theorem nonEmpty?_eq_some_iff {cs text : List Char} :
    nonEmpty? cs = some text ↔ text ≠ [] ∧ cs = text := by
  cases cs with
  | nil =>
    constructor
    · intro h
      cases h
    · rintro ⟨hne, rfl⟩
      exact absurd rfl hne
  | cons c cs =>
    constructor
    · intro h
      obtain rfl := Option.some.inj h
      exact ⟨List.cons_ne_nil c cs, rfl⟩
    · rintro ⟨-, rfl⟩
      rfl

@[simp] theorem trimStart_nil : trimStart [] = [] := rfl

@[simp] theorem trim_nil : trim [] = [] := rfl

end SourceAtlas.Text
