import SourceAtlas.Proofs.DocComment.Parameters

/-!
# Written return values

A returned value is written as `{type} description`, where type or description may be missing. Two
readers look for the description here too: the first one takes the line after the type as it is, the
second one also removes a dash. The first one finds something whenever there is something to find,
so the second one has no say (`returned?_eq`), and `stated` is all that a return tag says.

A type and a description on one line are read as they were written. A dash in front of the description
is read as part of it, unlike the dash of a parameter, although the second reader would remove it
(`returned?_line`).
-/

namespace SourceAtlas

open Text

namespace DocTag

/-- The names of the tags for a returned value. -/
def returnNames : List (List Char) := ["return".toList, "returns".toList]

/-- A text up to its first line break. -/
def firstLine (cs : List Char) : List Char := cs.takeWhile (· ≠ '\n')

/-- The text after the type at the start of a body, or the body if there is none. -/
def afterType (body : List Char) : List Char :=
  ((bracedType? body).map fun found => trimStart found.2).getD body

/-- What the body of a return tag says: the type at its start, and the first line after it. -/
def stated (body : List Char) : Returned where
  type := (bracedType? body).map fun found => String.ofList (trim found.1)
  description := (nonEmpty? (trim (firstLine (afterType body)))).map String.ofList

/-! ### The first line after a type -/

section Types

variable {body rest : List Char}

theorem head?_afterType (hblank : body.head?.any isBlank = false) :
    (afterType body).head?.any isBlank = false := by
  unfold afterType
  cases bracedType? body with
  | none => exact hblank
  | some found => exact any_head?_dropWhile isBlank found.2

/-- Where nothing follows the type, the other reader finds nothing either. -/
theorem withoutType_of_afterType (h : afterType body = []) : withoutType body = [] := by
  cases htype : bracedType? body with
  | none =>
    have hbody : body = [] := by simpa [afterType, htype] using h
    rw [hbody]
    rfl
  | some found =>
    obtain ⟨hbody, -, hclosed⟩ := bracedType?_eq_some htype
    have hafter : trimStart found.2 = [] := by simpa [afterType, htype] using h
    rw [hbody, withoutType_append hclosed, hafter]

theorem trim_firstLine_ne_nil (hne : rest ≠ []) (hblank : rest.head?.any isBlank = false) :
    trim (firstLine rest) ≠ [] := by
  obtain ⟨c, cs, rfl⟩ := List.exists_cons_of_ne_nil hne
  have hc : isBlank c = false := hblank
  have hbreak : c ≠ '\n' := fun h => absurd (h ▸ hc) (by decide)
  intro hnil
  have hall := trim_eq_nil_iff.1 hnil c (by simp [firstLine, hbreak])
  rw [hc] at hall
  cases hall

/-- The reader that removes a dash is never needed. -/
theorem nonEmpty?_firstLine_or (hblank : body.head?.any isBlank = false) :
    (nonEmpty? (trim (firstLine (afterType body)))).or (withoutDash? (withoutType body)) =
      nonEmpty? (trim (firstLine (afterType body))) := by
  by_cases hne : afterType body = []
  · rw [withoutType_of_afterType hne]
    exact Option.or_none
  · have hline := trim_firstLine_ne_nil hne (head?_afterType hblank)
    rw [nonEmpty?_eq_some_iff.2 ⟨hline, rfl⟩, Option.some_or]

end Types

/-! ### Tags -/

section Tags

variable {name body : List Char}

theorem afterKeyword?_returnNames (hname : name ∈ returnNames) :
    (afterKeyword? "@returns".toList ('@' :: (name ++ ' ' :: body))).or
      (afterKeyword? "@return".toList ('@' :: (name ++ ' ' :: body))) = some (trimStart body) := by
  rcases List.mem_pair.1 hname with rfl | rfl
  · -- the longer keyword needs one more letter where the blank stands
    have hshort : afterKeyword? "@return".toList ("@return".toList ++ ' ' :: body) =
        some (trimStart body) := afterKeyword?_append (by decide)
    exact hshort
  · have hlong : afterKeyword? "@returns".toList ("@returns".toList ++ ' ' :: body) =
        some (trimStart body) := afterKeyword?_append (by decide)
    exact congrArg (Option.or · _) hlong

theorem returnAt?_text (hname : name ∈ returnNames) (hblank : body.head?.any isBlank = false) :
    returnAt? ('@' :: (name ++ ' ' :: body)) =
      some ⟨(bracedType? body).map Prod.fst, [], firstLine (afterType body)⟩ := by
  have hstart : trimStart body = body := dropWhile_of_head? hblank
  rw [returnAt?, afterKeyword?_returnNames hname, hstart, Option.map_some, afterType]
  cases bracedType? body <;> rfl

theorem findReturn?_of_returnAt? {cs : List Char} {field : TagField}
    (h : returnAt? cs = some field) : findReturn? cs = some field := by
  cases cs with
  | nil => cases h
  | cons c cs => rw [findReturn?, h, Option.some_or]

/-- A return tag says what its body states, unless that is nothing. -/
theorem returned?_eq (hname : name ∈ returnNames) (hblank : body.head?.any isBlank = false) :
    returned? ⟨name, body⟩ = if (stated body).isEmpty then none else some (stated body) := by
  by_cases hne : body = []
  · subst hne
    rcases List.mem_pair.1 hname with rfl | rfl <;> rfl
  · rw [returned?, text_of_ne_nil hne, findReturn?_of_returnAt? (returnAt?_text hname hblank)]
    simp only [nonEmpty?_firstLine_or hblank, Option.map_map]
    rfl

end Tags

/-! ### Types and descriptions as they are written -/

section Written

variable {name description rest : List Char} {type : Option (List Char)}

theorem bracedType?_typeText (htype : ∀ t ∈ type, t ≠ [] ∧ '}' ∉ t)
    (hbrace : rest.head? ≠ some '{') :
    bracedType? (ParamLine.typeText type ++ rest) = type.map fun t => (t, ' ' :: rest) := by
  cases type with
  | none => exact bracedType?_of_head? hbrace
  | some t =>
    obtain ⟨hne, hclosed⟩ := htype t rfl
    rw [ParamLine.typeText_some_append, bracedType?_append hne hclosed, Option.map_some]

theorem afterType_typeText (htype : ∀ t ∈ type, t ≠ [] ∧ '}' ∉ t)
    (hbrace : rest.head? ≠ some '{') (hblank : rest.head?.any isBlank = false) :
    afterType (ParamLine.typeText type ++ rest) = rest := by
  rw [afterType, bracedType?_typeText htype hbrace]
  cases type with
  | none => rfl
  | some t => exact trimStart_space hblank

theorem withoutType_typeText (htype : ∀ t ∈ type, t ≠ [] ∧ '}' ∉ t)
    (hbrace : rest.head? ≠ some '{') (hblank : rest.head?.any isBlank = false) :
    withoutType (ParamLine.typeText type ++ rest) = rest := by
  cases type with
  | none => exact withoutType_of_head? hbrace
  | some t =>
    rw [ParamLine.typeText_some_append, withoutType_append (htype t rfl).2, trimStart_space hblank]

/-- A body starts with its type or with the text after it, and so not with a blank. -/
theorem head?_typeText_append (type : Option (List Char)) (hblank : rest.head?.any isBlank = false) :
    (ParamLine.typeText type ++ rest).head?.any isBlank = false := by
  cases type with
  | none => exact hblank
  | some t => exact (by decide : isBlank '{' = false)

/-- A returned value is described by the first line after its type, and by this line alone. -/
theorem returned?_append (hname : name ∈ returnNames) (htype : ∀ t ∈ type, t ≠ [] ∧ '}' ∉ t)
    (h : IsDescription description) (hbrace : description.head? ≠ some '{')
    (hrest : rest.head?.any (fun c => decide (c ≠ '\n')) = false) :
    returned? ⟨name, ParamLine.typeText type ++ (description ++ rest)⟩ =
      some ⟨type.map fun t => String.ofList (trim t), some (String.ofList description)⟩ := by
  have hblank := head?_append_description h rest
  have hfirst : (description ++ rest).head? ≠ some '{' := by
    rwa [List.head?_append_of_ne_nil _ h.ne_nil]
  have hline : firstLine (description ++ rest) = description :=
    takeWhile_append_stop (ne_of_notMem h.newLine_notMem) hrest
  have hstated : stated (ParamLine.typeText type ++ (description ++ rest)) =
      ⟨type.map fun t => String.ofList (trim t), some (String.ofList description)⟩ := by
    rw [stated, afterType_typeText htype hfirst hblank, bracedType?_typeText htype hfirst,
      Option.map_map, hline, h.isTrimmed.trim_eq, nonEmpty?_eq_some_iff.2 ⟨h.ne_nil, rfl⟩]
    rfl
  rw [returned?_eq hname (head?_typeText_append type hblank), hstated]
  simp [Returned.isEmpty]

theorem isDescription_dash (h : IsDescription description) :
    IsDescription ('-' :: ' ' :: description) where
  ne_nil := List.cons_ne_nil _ _
  isTrimmed := isTrimmed_cons_append [' '] (by decide) h.ne_nil h.isTrimmed.2
  newLine_notMem := by simpa using h.newLine_notMem

theorem returned?_typeAlone {t : List Char} (hname : name ∈ returnNames) (hne : t ≠ [])
    (hclosed : '}' ∉ t) :
    returned? ⟨name, '{' :: (t ++ ['}'])⟩ = some ⟨some (String.ofList (trim t)), none⟩ := by
  have hstated : stated ('{' :: (t ++ ['}'])) = ⟨some (String.ofList (trim t)), none⟩ := by
    rw [stated, afterType, bracedType?_append hne hclosed]
    rfl
  have hblank : ('{' :: (t ++ ['}'])).head?.any isBlank = false := (by decide : isBlank '{' = false)
  rw [returned?_eq hname hblank, hstated]
  rfl

theorem withoutDash?_dash (h : IsDescription description) :
    withoutDash? ('-' :: ' ' :: description) = some description := by
  have hfound : nonEmpty? (trim (' ' :: description)) = some description := by
    rw [trim_space h.isTrimmed]
    exact nonEmpty?_eq_some_iff.2 ⟨h.ne_nil, rfl⟩
  simp only [withoutDash?, (isDescription_dash h).isTrimmed.trim_eq, hfound]

/-- **A returned value on one line is read as it was written, and a dash is kept.** The type is read
without its braces, and the description with the dash in front of it, if there is one; the reader that
would remove the dash finds the description alone, but is not asked. A type alone has no description. -/
theorem returned?_line (hname : name ∈ returnNames)
    (htype : ∀ t ∈ type, t ≠ [] ∧ '}' ∉ t ∧ IsTrimmed t) (h : IsDescription description)
    (hdash : description.head? ≠ some '-') (hbrace : description.head? ≠ some '{') :
    returned? ⟨name, ParamLine.typeText type ++ description⟩ =
        some ⟨type.map String.ofList, some (String.ofList description)⟩ ∧
      returned? ⟨name, ParamLine.typeText type ++ '-' :: ' ' :: description⟩ =
        some ⟨type.map String.ofList, some (String.ofList ('-' :: ' ' :: description))⟩ ∧
      withoutDash? (withoutType (ParamLine.typeText type ++ description)) = some description ∧
      withoutDash? (withoutType (ParamLine.typeText type ++ '-' :: ' ' :: description)) =
        some description ∧
      ∀ t ∈ type, returned? ⟨name, '{' :: (t ++ ['}'])⟩ = some ⟨some (String.ofList t), none⟩ := by
  have hclosed : ∀ t ∈ type, t ≠ [] ∧ '}' ∉ t := fun t ht => ⟨(htype t ht).1, (htype t ht).2.1⟩
  have htrim : type.map (fun t => String.ofList (trim t)) = type.map String.ofList :=
    Option.map_congr fun t ht => by rw [(htype t ht).2.2.trim_eq]
  have hread : ∀ {text : List Char}, IsDescription text → text.head? ≠ some '{' →
      returned? ⟨name, ParamLine.typeText type ++ text⟩ =
        some ⟨type.map String.ofList, some (String.ofList text)⟩ := by
    intro text htext hfirst
    rw [← List.append_nil text, returned?_append hname hclosed htext hfirst rfl, htrim,
      List.append_nil]
  have hmark : ('-' :: ' ' :: description).head? ≠ some '{' := (by decide : some '-' ≠ some '{')
  refine ⟨hread h hbrace, hread (isDescription_dash h) hmark, ?_, ?_, ?_⟩
  · rw [withoutType_typeText hclosed hbrace h.isTrimmed.1]
    exact withoutDash?_of_head? h.ne_nil h.isTrimmed hdash
  · rw [withoutType_typeText hclosed hmark (isDescription_dash h).isTrimmed.1]
    exact withoutDash?_dash h
  · intro t ht
    rw [returned?_typeAlone hname (hclosed t ht).1 (hclosed t ht).2, (htype t ht).2.2.trim_eq]

theorem returned?_line_awkward :
    IsDescription "the @returns \x7b\x7d - rest".toList ∧
      returned? ⟨"return".toList,
          "\x7bMap<\x7bkey, [T=-1>\x7d the @returns \x7b\x7d - rest".toList⟩ =
        some ⟨some "Map<\x7bkey, [T=-1>", some "the @returns \x7b\x7d - rest"⟩ ∧
      returned? ⟨"return".toList,
          "\x7bMap<\x7bkey, [T=-1>\x7d - the @returns \x7b\x7d - rest".toList⟩ =
        some ⟨some "Map<\x7bkey, [T=-1>", some "- the @returns \x7b\x7d - rest"⟩ := by
  have hdescription : IsDescription "the @returns \x7b\x7d - rest".toList :=
    ⟨by decide, by decide, by decide⟩
  have htype : ∀ t ∈ some "Map<\x7bkey, [T=-1>".toList, t ≠ [] ∧ '}' ∉ t ∧ IsTrimmed t := by
    rintro t ⟨rfl⟩
    decide
  obtain ⟨hspaced, hdashed, -⟩ := returned?_line (by decide : "return".toList ∈ returnNames) htype
    hdescription (by decide) (by decide)
  exact ⟨hdescription, hspaced, hdashed⟩

/-- The dash in front of a description is not told apart from it. -/
theorem exists_dash_kept :
    ∃ type description : List Char, (type ≠ [] ∧ '}' ∉ type ∧ IsTrimmed type) ∧
      (description ≠ [] ∧ IsTrimmed description ∧ '\n' ∉ description) ∧
      description.head? ≠ some '-' ∧ description.head? ≠ some '{' ∧
      returned? ⟨"returns".toList,
          ParamLine.typeText (some type) ++ '-' :: ' ' :: description⟩ ≠
        some ⟨some (String.ofList type), some (String.ofList description)⟩ :=
  ⟨"string".toList, "the name".toList, by decide, by decide, by decide, by decide, by decide +kernel⟩

end Written

end DocTag

end SourceAtlas
