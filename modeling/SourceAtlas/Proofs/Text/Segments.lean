import Mathlib.Tactic
import SourceAtlas.Path

/-!
# Segments and their order

Texts divided at a character and joined again, paths as chains of names, and the order of names by
their bytes.
-/

namespace SourceAtlas

namespace Text

/-! ### Dividing and joining -/

/-- No part holds the character. -/
theorem notMem_of_mem_splitOn {sep : Char} {cs part : List Char} (h : part ∈ cs.splitOn sep) :
    sep ∉ part := by
  induction cs generalizing part with
  | nil =>
    rw [List.splitOn_nil, List.mem_singleton] at h
    simp [h]
  | cons c cs ih =>
    rw [List.splitOn_cons_eq_if_modifyHead] at h
    split at h
    next =>
      rcases List.mem_cons.1 h with rfl | h
      · simp
      · exact ih h
    next hc =>
      obtain ⟨first, parts, hparts⟩ := List.exists_cons_of_ne_nil (List.splitOn_ne_nil sep cs)
      rw [hparts] at h ih
      rcases List.mem_cons.1 h with rfl | h
      · have hfirst := ih (List.mem_cons_self ..)
        have hne : sep ≠ c := fun heq => hc (beq_iff_eq.2 heq.symm)
        simpa [hne] using hfirst
      · exact ih (List.mem_cons_of_mem _ h)

/-- Characters other than the one that divides belong to the first part. -/
theorem splitOn_append_of_notMem {sep : Char} {lead cs part : List Char} {parts : List (List Char)}
    (hlead : sep ∉ lead) (h : cs.splitOn sep = part :: parts) :
    (lead ++ cs).splitOn sep = (lead ++ part) :: parts := by
  induction lead with
  | nil => exact h
  | cons c lead ih =>
    have hc : ¬ c = sep := fun hc => hlead (by simp [hc])
    have hrest := ih fun hmem => hlead (by simp [hmem])
    simp [List.splitOn_cons_eq_if_modifyHead, hc, hrest]

theorem intercalate_cons_append (sep lead part : List Char) (parts : List (List Char)) :
    sep.intercalate ((lead ++ part) :: parts) = lead ++ sep.intercalate (part :: parts) := by
  cases parts <;> simp [List.intercalate_cons_cons]

/-- What is joined is divided at the joints, and each part on its own. -/
theorem splitOn_intercalate_eq_flatMap {sep : Char} {parts : List (List Char)} (hne : parts ≠ []) :
    ([sep].intercalate parts).splitOn sep = parts.flatMap (List.splitOn sep) := by
  induction parts with
  | nil => exact absurd rfl hne
  | cons part parts ih =>
    cases parts with
    | nil => rw [List.flatMap_singleton, List.intercalate_singleton]
    | cons next parts =>
      rw [List.intercalate_cons_cons, List.append_assoc, List.singleton_append,
        List.splitOn_append_cons_self, ih (List.cons_ne_nil next parts)]
      rfl

theorem intercalate_eq_nil_iff {sep : Char} {parts : List (List Char)}
    (h : ∀ part ∈ parts, part ≠ []) : [sep].intercalate parts = [] ↔ parts = [] := by
  cases parts with
  | nil => simp
  | cons part parts =>
    cases parts with
    | nil => simpa using h part
    | cons next parts => simp [List.intercalate_cons_cons]

theorem intercalate_append {sep : Char} {parts more : List (List Char)} (hne : parts ≠ [])
    (hmore : more ≠ []) :
    [sep].intercalate (parts ++ more) = [sep].intercalate parts ++ sep :: [sep].intercalate more := by
  induction parts with
  | nil => exact absurd rfl hne
  | cons part parts ih =>
    cases parts with
    | nil =>
      rw [List.singleton_append, List.intercalate_cons_of_ne_nil hmore, List.intercalate_singleton,
        List.append_assoc, List.singleton_append]
    | cons next parts =>
      rw [List.cons_append, List.cons_append, List.intercalate_cons_cons, List.intercalate_cons_cons,
        ← List.cons_append, ih (by simp), List.append_assoc, List.append_assoc, List.append_assoc]

theorem intercalate_concat {sep : Char} {parts : List (List Char)} (hne : parts ≠ [])
    (last : List Char) :
    [sep].intercalate (parts ++ [last]) = [sep].intercalate parts ++ sep :: last := by
  rw [intercalate_append hne (List.cons_ne_nil last []), List.intercalate_singleton]

@[simp] theorem unlines_singleton (part : List Char) : unlines [part] = part :=
  List.intercalate_singleton

/-! ### The order of bytes -/

/-- The bytes of a character come before those of a later character, whatever follows. -/
theorem utf8EncodeChar_append_lt {c d : Char} (h : c < d) (s t : List UInt8) :
    String.utf8EncodeChar c ++ s < String.utf8EncodeChar d ++ t := by
  have hlt : c.val.toNat < d.val.toNat := h
  have hmax : d.val.toNat ≤ 0x10ffff := by
    rcases d.valid with hd | hd <;> omega
  -- the digits to the base sixty-four that the bytes carry
  have hdigits (n : Nat) :
      n = ((n / 262144 * 64 + n / 4096 % 64) * 64 + n / 64 % 64) * 64 + n % 64 := by omega
  have hv := hdigits c.val.toNat
  have hw := hdigits d.val.toNat
  simp only [String.utf8EncodeChar]
  generalize c.val.toNat = v at *
  generalize d.val.toNat = w at *
  -- the first byte tells the lengths apart; within one length the first digit that differs decides
  split_ifs <;> first
    | omega
    | (simp (disch := omega) only [List.cons_append, List.nil_append, List.cons_lt_cons_iff,
        UInt8.lt_iff_toNat_lt, ← UInt8.toNat_inj, UInt8.toNat_ofNat', Nat.mod_eq_of_lt]
       omega)

/-- Texts are ordered like their bytes. -/
theorem bytes_lt_bytes {s t : List Char} (h : s < t) : bytes s < bytes t := by
  induction s generalizing t with
  | nil =>
    cases t with
    | nil => exact absurd h (List.lt_irrefl [])
    | cons d t =>
      obtain ⟨b, bs, hb⟩ := List.exists_cons_of_ne_nil (String.utf8EncodeChar_ne_nil (c := d))
      simp [bytes, List.flatMap_cons, hb]
  | cons c s ih =>
    cases t with
    | nil => cases h
    | cons d t =>
      simp only [bytes, List.flatMap_cons]
      rcases List.cons_lt_cons_iff.1 h with hlt | ⟨rfl, hlt⟩
      · exact utf8EncodeChar_append_lt hlt _ _
      · exact List.append_left_lt (ih hlt)

end Text

end SourceAtlas
