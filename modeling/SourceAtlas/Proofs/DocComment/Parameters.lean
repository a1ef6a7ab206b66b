import SourceAtlas.DocComment.Fields
import SourceAtlas.Proofs.Text.Trimming

/-!
# Written parameters

A parameter is written on one line as `{type} name - description`. The type may be missing, the name
may stand in brackets and have a default value there, and the description may be missing or follow
without a dash. `ParamLine` is such a line, and the tag with this body documents the parameter that
was written (`parameter?_body`).

The description comes from one of two readers. The first one finds what follows a dash; the second
one removes the type and the name from the body. Both divide the body where it was put together: a
type ends at its first closing brace (`bracedType?_append`, `withoutType_append`) and a name, with its
brackets, in front of a blank (`paramName?_append`). What they find there together is the description
(`description_text`), whatever signs it holds.
-/

namespace SourceAtlas

open Text

/-- A blank is no word character. -/
theorem Text.isWord_of_isBlank {c : Char} (h : isBlank c = true) : isWord c = false := by
  have hblanks : ∀ n ∈ List.range' 0x09 5 ++ List.range' 0x2000 11 ++
      [0x20, 0x85, 0xa0, 0x1680, 0x2028, 0x2029, 0x202f, 0x205f, 0x3000],
      (!isWord (Char.ofNat n)) = true := List.all_eq_true.1 (by decide +kernel)
  have hmem : c.toNat ∈ List.range' 0x09 5 ++ List.range' 0x2000 11 ++
      [0x20, 0x85, 0xa0, 0x1680, 0x2028, 0x2029, 0x202f, 0x205f, 0x3000] := by
    simp only [isBlank, Bool.or_eq_true, Bool.and_eq_true, decide_eq_true_eq, beq_iff_eq] at h
    simp only [List.mem_append, List.mem_range'_1, List.mem_cons, List.not_mem_nil, or_false]
    omega
  have hword := hblanks _ hmem
  rwa [Char.ofNat_toNat, Bool.not_eq_true'] at hword

theorem Text.ne_of_notMem {c : Char} {cs : List Char} (h : c ∉ cs) :
    ∀ d ∈ cs, decide (d ≠ c) = true :=
  fun _ hd => decide_eq_true fun heq => h (heq ▸ hd)

theorem Text.trimStart_space {cs : List Char} (h : cs.head?.any isBlank = false) :
    trimStart (' ' :: cs) = cs := by
  rw [trimStart, List.dropWhile_cons_of_pos (by decide), dropWhile_of_head? h]

/-! ### Lines with a parameter -/

/-- How the name of a parameter is written. -/
inductive ParamForm where
  | plain
  | bracketed
  | withDefault (value : List Char)
deriving Repr, DecidableEq

/-- How the description of a parameter follows its name. -/
inductive ParamEnding where
  | absent
  | dashed (description : List Char)
  | spaced (description : List Char)
deriving Repr, DecidableEq

/-- A parameter that is written on one line. -/
structure ParamLine where
  type : Option (List Char)
  name : List Char
  form : ParamForm
  ending : ParamEnding
deriving Repr, DecidableEq

/-- A text that can be found again at the end of a line. -/
structure IsDescription (text : List Char) : Prop where
  ne_nil : text ≠ []
  isTrimmed : IsTrimmed text
  newLine_notMem : '\n' ∉ text

/-- A name whose characters are those of names. -/
structure IsParamName (name : List Char) : Prop where
  ne_nil : name ≠ []
  isParamNameChar : ∀ c ∈ name, DocTag.isParamNameChar c = true

namespace ParamForm

/-- A name as it is written. -/
def text (name : List Char) : ParamForm → List Char
  | plain => name
  | bracketed => '[' :: (name ++ [']'])
  | withDefault value => '[' :: (name ++ '=' :: (value ++ [']']))

/-- Whether a default value ends where its bracket closes. -/
def WellFormed : ParamForm → Prop
  | plain | bracketed => True
  | withDefault value => ']' ∉ value

end ParamForm

namespace ParamEnding

/-- What is written behind the name. -/
def text : ParamEnding → List Char
  | absent => []
  | dashed description => ' ' :: '-' :: ' ' :: description
  | spaced description => ' ' :: description

/-- The description without the space or the dash before it. -/
def description? : ParamEnding → Option (List Char)
  | absent => none
  | dashed description | spaced description => some description

theorem head?_text (ending : ParamEnding) : ending.text.head?.all isBlank = true := by
  cases ending <;> rfl

/-- Whether the description is one, and does not bring a dash of its own where none is written. -/
def WellFormed : ParamEnding → Prop
  | absent => True
  | dashed description => IsDescription description
  | spaced description => IsDescription description ∧ description.head? ≠ some '-'

end ParamEnding

namespace ParamLine

/-- A type with its braces and the space after it. -/
def typeText : Option (List Char) → List Char
  | none => []
  | some type => '{' :: (type ++ ['}', ' '])

/-- The line as it is written behind its tag. -/
def body (line : ParamLine) : List Char :=
  typeText line.type ++ (line.form.text line.name ++ line.ending.text)

theorem typeText_some_append (type rest : List Char) :
    typeText (some type) ++ rest = '{' :: (type ++ '}' :: ' ' :: rest) := by
  simp [typeText]

/-- The parameter that a line documents. -/
def parameter (line : ParamLine) : Parameter where
  name := String.ofList line.name
  type := line.type.map String.ofList
  description := line.ending.description?.map String.ofList

/-- Whether the parts of a line can be told apart once it is written. -/
structure WellFormed (line : ParamLine) : Prop where
  type : ∀ type ∈ line.type, type ≠ [] ∧ '}' ∉ type ∧ IsTrimmed type
  name : IsParamName line.name
  form : line.form.WellFormed
  ending : line.ending.WellFormed

end ParamLine

namespace DocTag

/-! ### Types -/

section Types

variable {type rest cs : List Char}

theorem bracedType?_append (hne : type ≠ []) (hclosed : '}' ∉ type) :
    bracedType? ('{' :: (type ++ '}' :: rest)) = some (type, rest) := by
  obtain ⟨c, cs, rfl⟩ := List.exists_cons_of_ne_nil hne
  rw [bracedType?, takeWhile_append_stop (ne_of_notMem hclosed) (by rfl),
    dropWhile_append_stop (ne_of_notMem hclosed) (by rfl)]
  rfl

theorem bracedType?_of_head? (h : cs.head? ≠ some '{') : bracedType? cs = none := by
  unfold bracedType?
  split
  next => exact absurd rfl h
  next => rfl

theorem bracedType?_eq_some {after : List Char} (h : bracedType? cs = some (type, after)) :
    cs = '{' :: (type ++ '}' :: after) ∧ type ≠ [] ∧ '}' ∉ type := by
  unfold bracedType? at h
  split at h
  next rest =>
    split at h
    next c tail after' htake hdrop =>
      obtain ⟨rfl, rfl⟩ := Prod.mk.inj (Option.some.inj h)
      refine ⟨?_, List.cons_ne_nil c tail, fun hmem => ?_⟩
      · rw [← htake, ← hdrop, List.takeWhile_append_dropWhile]
      · rw [← htake] at hmem
        simpa using List.mem_takeWhile_imp hmem
    next => cases h
  next => cases h

theorem withoutType_append (hclosed : '}' ∉ type) :
    withoutType ('{' :: (type ++ '}' :: rest)) = trimStart rest := by
  rw [withoutType, dropWhile_append_stop (ne_of_notMem hclosed) (by rfl)]
  rfl

theorem withoutType_of_head? (h : cs.head? ≠ some '{') : withoutType cs = cs := by
  unfold withoutType
  split
  next => exact absurd rfl h
  next => rfl

end Types

/-! ### Names -/

section Names

variable {name rest : List Char} {form : ParamForm}

theorem isParamNameChar_of_isBlank {c : Char} (h : isBlank c = true) :
    isParamNameChar c = false := by
  have hdollar : c ≠ '$' := fun hc => absurd (hc ▸ h) (by decide)
  have hdot : c ≠ '.' := fun hc => absurd (hc ▸ h) (by decide)
  simp [isParamNameChar, isWord_of_isBlank h, hdollar, hdot]

/-- A written name starts neither with a blank nor like a type. -/
theorem head?_paramForm_text (h : IsParamName name) (form : ParamForm) (rest : List Char) :
    (form.text name ++ rest).head?.any isBlank = false ∧
      (form.text name ++ rest).head? ≠ some '{' := by
  cases form with
  | plain =>
    obtain ⟨c, cs, rfl⟩ := List.exists_cons_of_ne_nil h.ne_nil
    have hc := h.isParamNameChar c List.mem_cons_self
    constructor
    · refine Bool.eq_false_iff.2 fun hblank => ?_
      rw [isParamNameChar_of_isBlank hblank] at hc
      cases hc
    · intro hbrace
      exact absurd (Option.some.inj hbrace ▸ hc) (by decide)
  | bracketed | withDefault =>
    exact ⟨(by decide : isBlank '[' = false), (by decide : some '[' ≠ some '{')⟩

theorem paramName?_bracket (h : IsParamName name) (hrest : rest.head?.any isParamNameChar = false) :
    paramName? ('[' :: (name ++ rest)) = some (name, afterDefault rest) := by
  rw [paramName?, takeWhile_append_stop h.isParamNameChar hrest,
    dropWhile_append_stop h.isParamNameChar hrest]
  split
  next => exact absurd rfl h.ne_nil
  next => rfl

/-- An opening bracket in front of a name does not matter. -/
theorem paramName?_of_ne {c : Char} {cs : List Char} (h : c ≠ '[') :
    paramName? (c :: cs) = paramName? ('[' :: c :: cs) := by
  simp [paramName?, h]

theorem afterDefault_of_head? (h : rest.head?.all isBlank = true) : afterDefault rest = rest := by
  cases rest with
  | nil => rfl
  | cons c rest =>
    have hblank : isBlank c = true := h
    have hequals : c ≠ '=' := fun hc => absurd (hc ▸ hblank) (by decide)
    have hbracket : c ≠ ']' := fun hc => absurd (hc ▸ hblank) (by decide)
    simp [afterDefault, hequals, hbracket]

/-- A name is found again, in each of its forms, in front of a blank. -/
theorem paramName?_append (h : IsParamName name) (hform : form.WellFormed)
    (hrest : rest.head?.all isBlank = true) :
    paramName? (form.text name ++ rest) = some (name, rest) := by
  cases form with
  | plain =>
    have hstop : rest.head?.any isParamNameChar = false := by
      cases rest with
      | nil => rfl
      | cons c rest => exact isParamNameChar_of_isBlank hrest
    have hbracketed : paramName? (name ++ rest) = paramName? ('[' :: (name ++ rest)) := by
      obtain ⟨c, cs, rfl⟩ := List.exists_cons_of_ne_nil h.ne_nil
      have hc := h.isParamNameChar c List.mem_cons_self
      exact paramName?_of_ne fun hbracket => absurd (hbracket ▸ hc) (by decide)
    rw [ParamForm.text, hbracketed, paramName?_bracket h hstop, afterDefault_of_head? hrest]
  | bracketed =>
    have hsplit : ParamForm.bracketed.text name ++ rest = '[' :: (name ++ ']' :: rest) := by
      simp [ParamForm.text]
    have hstop : (']' :: rest).head?.any isParamNameChar = false :=
      (by decide : isParamNameChar ']' = false)
    rw [hsplit, paramName?_bracket h hstop]
    rfl
  | withDefault value =>
    have hsplit : (ParamForm.withDefault value).text name ++ rest =
        '[' :: (name ++ '=' :: (value ++ ']' :: rest)) := by simp [ParamForm.text]
    have hdefault : afterDefault ('=' :: (value ++ ']' :: rest)) = rest := by
      rw [afterDefault, dropWhile_append_stop (ne_of_notMem hform) (by rfl)]
      rfl
    have hstop : ('=' :: (value ++ ']' :: rest)).head?.any isParamNameChar = false :=
      (by decide : isParamNameChar '=' = false)
    rw [hsplit, paramName?_bracket h hstop, hdefault]

theorem withoutName_append (h : IsParamName name) (hform : form.WellFormed)
    (hrest : rest.head?.all isBlank = true) :
    withoutName (form.text name ++ rest) = trimStart rest := by
  rw [withoutName, paramName?_append h hform hrest]

end Names

/-! ### Descriptions -/

section Descriptions

variable {description rest : List Char}

theorem head?_append_description (h : IsDescription description) (rest : List Char) :
    (description ++ rest).head?.any isBlank = false := by
  rw [List.head?_append_of_ne_nil _ h.ne_nil]
  exact h.isTrimmed.1

/-- A description after a dash ends with its line. -/
theorem afterDash_append (h : IsDescription description)
    (hrest : rest.head?.any (fun c => decide (c ≠ '\n')) = false) :
    afterDash (' ' :: '-' :: ' ' :: (description ++ rest)) = description := by
  have hdash : trimStart (' ' :: '-' :: ' ' :: (description ++ rest)) =
      '-' :: ' ' :: (description ++ rest) :=
    trimStart_space (by decide : isBlank '-' = false)
  have hline : (description ++ rest).takeWhile (· ≠ '\n') = description :=
    takeWhile_append_stop (ne_of_notMem h.newLine_notMem) hrest
  simp only [afterDash, hdash, trimStart_space (head?_append_description h rest), hline]

theorem afterDash_space (hblank : rest.head?.any isBlank = false)
    (hdash : rest.head? ≠ some '-') : afterDash (' ' :: rest) = [] := by
  rw [afterDash, trimStart_space hblank]
  split
  next => exact absurd rfl hdash
  next => rfl

theorem withoutDash?_of_head? (hne : rest ≠ []) (htrimmed : IsTrimmed rest)
    (hdash : rest.head? ≠ some '-') : withoutDash? rest = some rest := by
  rw [withoutDash?, htrimmed.trim_eq]
  split
  next => exact absurd rfl hdash
  next => exact nonEmpty?_eq_some_iff.2 ⟨hne, rfl⟩

/-- What follows a dash, or else what is left of the line, is the description. -/
theorem description_text {ending : ParamEnding} (h : ending.WellFormed) :
    (nonEmpty? (trim (afterDash ending.text))).or (withoutDash? (trimStart ending.text)) =
      ending.description? := by
  cases ending with
  | absent => rfl
  | dashed description =>
    have hfound : nonEmpty? description = some description :=
      nonEmpty?_eq_some_iff.2 ⟨h.ne_nil, rfl⟩
    have hline : afterDash (' ' :: '-' :: ' ' :: (description ++ [])) = description :=
      afterDash_append h rfl
    rw [List.append_nil] at hline
    rw [ParamEnding.text, hline, h.isTrimmed.trim_eq, hfound]
    rfl
  | spaced description =>
    obtain ⟨hdescription, hdash⟩ := h
    rw [ParamEnding.text, afterDash_space hdescription.isTrimmed.1 hdash,
      trimStart_space hdescription.isTrimmed.1,
      withoutDash?_of_head? hdescription.ne_nil hdescription.isTrimmed hdash]
    rfl

end Descriptions

/-! ### Tags -/

section Tags

variable {line : ParamLine} {type : Option (List Char)} {name rest : List Char} {form : ParamForm}

theorem text_of_ne_nil {body : List Char} (h : body ≠ []) :
    text ⟨name, body⟩ = '@' :: (name ++ ' ' :: body) := by
  simp [text, h]

theorem afterKeyword?_append {c : Char} {keyword rest : List Char} (hc : isBlank c = true) :
    afterKeyword? keyword (keyword ++ c :: rest) = some (trimStart rest) := by
  rw [afterKeyword?, List.isPrefixOf?_eq_some_iff_append_eq.2 rfl]
  exact if_pos hc

/-- A type and a name are told apart from whatever follows them after a blank. -/
theorem paramAt?_append (htype : ∀ t ∈ type, t ≠ [] ∧ '}' ∉ t) (hname : IsParamName name)
    (hform : form.WellFormed) (hrest : rest.head?.all isBlank = true) :
    paramAt? ("@param".toList ++ ' ' :: (ParamLine.typeText type ++ (form.text name ++ rest))) =
      some ⟨type, name, afterDash rest⟩ := by
  have hfound := paramName?_append hname hform hrest
  obtain ⟨hblank, hbrace⟩ := head?_paramForm_text hname form rest
  rw [paramAt?, afterKeyword?_append (by decide), Option.bind_some]
  cases type with
  | none =>
    have hstart : trimStart (ParamLine.typeText none ++ (form.text name ++ rest)) =
        form.text name ++ rest := dropWhile_of_head? hblank
    simp only [hstart, bracedType?_of_head? hbrace, hfound, Option.map_some]
  | some t =>
    obtain ⟨hne, hclosed⟩ := htype t rfl
    have hstart : trimStart (ParamLine.typeText (some t) ++ (form.text name ++ rest)) =
        '{' :: (t ++ '}' :: ' ' :: (form.text name ++ rest)) := by
      rw [ParamLine.typeText_some_append]
      exact dropWhile_of_head? (by decide : isBlank '{' = false)
    simp only [hstart, bracedType?_append hne hclosed, trimStart_space hblank, hfound,
      Option.map_some]

/-- What is left of a tag without its type and its name. -/
theorem withoutName_withoutType_append (htype : ∀ t ∈ type, '}' ∉ t) (hname : IsParamName name)
    (hform : form.WellFormed) (hrest : rest.head?.all isBlank = true) :
    withoutName (withoutType (ParamLine.typeText type ++ (form.text name ++ rest))) =
      trimStart rest := by
  obtain ⟨hblank, hbrace⟩ := head?_paramForm_text hname form rest
  have hleft : withoutType (ParamLine.typeText type ++ (form.text name ++ rest)) =
      form.text name ++ rest := by
    cases type with
    | none => exact withoutType_of_head? hbrace
    | some t =>
      rw [ParamLine.typeText_some_append, withoutType_append (htype t rfl), trimStart_space hblank]
  rw [hleft, withoutName_append hname hform hrest]

/-- A line divides into its type, its name and its ending. -/
theorem paramAt?_body (h : line.WellFormed) :
    paramAt? ("@param".toList ++ ' ' :: line.body) =
      some ⟨line.type, line.name, afterDash line.ending.text⟩ :=
  paramAt?_append (fun t ht => ⟨(h.type t ht).1, (h.type t ht).2.1⟩) h.name h.form
    line.ending.head?_text

theorem findParam?_of_paramAt? {cs : List Char} {field : TagField} (h : paramAt? cs = some field) :
    findParam? cs = some field := by
  cases cs with
  | nil => cases h
  | cons c cs => rw [findParam?, h, Option.some_or]

theorem withoutName_withoutType_body (h : line.WellFormed) :
    withoutName (withoutType line.body) = trimStart line.ending.text :=
  withoutName_withoutType_append (fun t ht => (h.type t ht).2.1) h.name h.form
    line.ending.head?_text

/-- A tag with a parameter on one line documents this parameter. -/
theorem parameter?_body (h : line.WellFormed) :
    parameter? ⟨"param".toList, line.body⟩ = some line.parameter := by
  have hat := paramAt?_body h
  have hne : line.body ≠ [] := by
    intro hnil
    have hnone : paramAt? ("@param".toList ++ [' ']) = none := by rfl
    rw [hnil, hnone] at hat
    cases hat
  have htext : text ⟨"param".toList, line.body⟩ = "@param".toList ++ ' ' :: line.body := by
    rw [text, if_neg (by simpa using hne)]
    rfl
  have htype : line.type.map (fun type => String.ofList (trim type)) =
      line.type.map String.ofList :=
    Option.map_congr fun type htype => by rw [(h.type type htype).2.2.trim_eq]
  rw [parameter?, htext, findParam?_of_paramAt? hat, Option.map_some, withoutName_withoutType_body h,
    description_text h.ending, htype]
  rfl

/-- A line whose parts hold the signs that end other parts. -/
def crowdedLine : ParamLine where
  type := some "Map<\x7bkey: string, [T=-1".toList
  name := "options.$init_é".toList
  form := .withDefault "[\x7ba: 1\x7d - b = c, @param \x7bx\x7d y".toList
  ending := .dashed "- see \x7d and ] = @param \x7bT\x7d z - more".toList

theorem wellFormed_crowdedLine : crowdedLine.WellFormed where
  type := by
    rintro type ⟨rfl⟩
    decide
  name := ⟨by decide, List.all_eq_true.1 (by decide +kernel)⟩
  form := (by decide : ']' ∉ "[\x7ba: 1\x7d - b = c, @param \x7bx\x7d y".toList)
  ending := ⟨by decide, by decide, by decide⟩

theorem parameter?_crowdedLine :
    crowdedLine.WellFormed ∧
      parameter? ⟨"param".toList, ("\x7bMap<\x7bkey: string, [T=-1\x7d " ++
        "[options.$init_é=[\x7ba: 1\x7d - b = c, @param \x7bx\x7d y]" ++
        " - - see \x7d and ] = @param \x7bT\x7d z - more").toList⟩ =
      some ⟨"options.$init_é", some "Map<\x7bkey: string, [T=-1",
        some "- see \x7d and ] = @param \x7bT\x7d z - more"⟩ := by
  have hbody : ("\x7bMap<\x7bkey: string, [T=-1\x7d " ++
      "[options.$init_é=[\x7ba: 1\x7d - b = c, @param \x7bx\x7d y]" ++
      " - - see \x7d and ] = @param \x7bT\x7d z - more").toList = crowdedLine.body := by
    decide +kernel
  rw [hbody, parameter?_body wellFormed_crowdedLine]
  exact ⟨wellFormed_crowdedLine, by decide +kernel⟩

end Tags

end DocTag

end SourceAtlas
