import SourceAtlas.Proofs.DocComment.Parameters
import SourceAtlas.Proofs.DocComment.Printing

/-!
# What documentation records hold

The texts that a comment puts into a function's entry come from several readers. `FunctionEntry.Clean`
says that descriptions are absent or clean, that is, neither empty nor surrounded by blanks, that names
of parameters are names, and that a record of a returned value says something. What it asks of types is
a parameter: types are trimmed like all other texts, but they are not dropped when nothing is left.

Every tag keeps an entry clean (`Clean.document`), so all the tags of a comment do. The types of the
entry are always trimmed, and they are clean too unless a tag of the comment has a type of blanks
(`clean_document`).
-/

namespace SourceAtlas

open Text

/-- A text that is not empty and has no blanks at its ends. -/
def IsClean (text : String) : Prop := text ≠ "" ∧ IsTrimmed text.toList

instance : DecidablePred IsClean := fun _ => inferInstanceAs (Decidable (_ ∧ _))

/-- A parameter with a name, a clean description, and a type as promised. -/
structure Parameter.Clean (ofType : String → Prop) (parameter : Parameter) : Prop where
  name : IsParamName parameter.name.toList
  type : ∀ text ∈ parameter.type, ofType text
  description : ∀ text ∈ parameter.description, IsClean text

/-- A returned value about which something is said, with a clean description and a type as
promised. -/
structure Returned.Clean (ofType : String → Prop) (returned : Returned) : Prop where
  type : ∀ text ∈ returned.type, ofType text
  description : ∀ text ∈ returned.description, IsClean text
  said : returned.type ≠ none ∨ returned.description ≠ none

/-- A function's entry with clean documentation and types as promised. -/
structure FunctionEntry.Clean (ofType : String → Prop) (entry : FunctionEntry) : Prop where
  description : ∀ text ∈ entry.description, IsClean text
  params : ∀ parameter ∈ entry.params, parameter.Clean ofType
  returns : ∀ returned ∈ entry.returns, returned.Clean ofType

theorem Returned.said_of_not_isEmpty {returned : Returned} (h : ¬ returned.isEmpty = true) :
    returned.type ≠ none ∨ returned.description ≠ none := by
  simpa [Returned.isEmpty, ← not_and_or] using h

/-! ### Clean texts -/

theorem isClean_ofList {text : List Char} (h : text ≠ [] ∧ IsTrimmed text) :
    IsClean (String.ofList text) := by
  obtain ⟨hne, htrimmed⟩ := h
  refine ⟨fun hempty => hne ?_, by rwa [String.toList_ofList]⟩
  rw [← String.toList_ofList (l := text), hempty]
  rfl

theorem of_nonEmpty?_trim {cs text : List Char} (h : nonEmpty? (trim cs) = some text) :
    text ≠ [] ∧ IsTrimmed text := by
  obtain ⟨hne, rfl⟩ := nonEmpty?_eq_some_iff.1 h
  exact ⟨hne, isTrimmed_trim cs⟩

namespace DocTag

theorem of_withoutDash? {cs text : List Char} (h : withoutDash? cs = some text) :
    text ≠ [] ∧ IsTrimmed text := by
  unfold withoutDash? at h
  split at h
  next => exact of_nonEmpty?_trim h
  next => exact of_nonEmpty?_trim h

/-- Whichever reader finds a description, it is clean. -/
theorem isClean_of_mem_or {cs rest : List Char} {text : String}
    (h : text ∈ ((nonEmpty? (trim cs)).or (withoutDash? rest)).map String.ofList) :
    IsClean text := by
  obtain ⟨chars, hchars, rfl⟩ := Option.map_eq_some_iff.1 h
  apply isClean_ofList
  rcases Option.or_eq_some_iff.1 hchars with hfound | ⟨-, hfound⟩
  · exact of_nonEmpty?_trim hfound
  · exact of_withoutDash? hfound

/-! ### What the readers find in a tag -/

section Found

variable {cs rest name type : List Char} {field : TagField}

/-- The keywords in front of types. -/
def typeKeywords : List (List Char) := ["@param".toList, "@return".toList, "@returns".toList]

/-- Whether a text holds a type between braces behind a keyword. -/
def WritesType (cs type : List Char) : Prop :=
  ∃ keyword ∈ typeKeywords, ∃ before gap after : List Char,
    cs = before ++ (keyword ++ (gap ++ '{' :: (type ++ '}' :: after))) ∧
      gap ≠ [] ∧ (∀ c ∈ gap, isBlank c = true) ∧ type ≠ []

theorem WritesType.cons (h : WritesType cs type) (c : Char) : WritesType (c :: cs) type := by
  obtain ⟨keyword, hkeyword, before, gap, after, rfl, hgap⟩ := h
  exact ⟨keyword, hkeyword, c :: before, gap, after, rfl, hgap⟩

theorem afterKeyword?_eq_some {keyword : List Char} (h : afterKeyword? keyword cs = some rest) :
    ∃ gap, cs = keyword ++ (gap ++ rest) ∧ gap ≠ [] ∧ ∀ c ∈ gap, isBlank c = true := by
  unfold afterKeyword? at h
  split at h
  next c after hstrip =>
    split at h
    next hblank =>
      obtain rfl := Option.some.inj h
      refine ⟨c :: after.takeWhile isBlank, ?_, List.cons_ne_nil _ _, ?_⟩
      · rw [← List.isPrefixOf?_eq_some_iff_append_eq.1 hstrip, trimStart, List.cons_append,
          List.takeWhile_append_dropWhile]
      · intro d hd
        rcases List.mem_cons.1 hd with rfl | hd
        · exact hblank
        · exact List.mem_takeWhile_imp hd
    next => cases h
  next => cases h

/-- A type that is read behind a keyword is written there. -/
theorem writesType_of_bracedType? {keyword after : List Char} (hkeyword : keyword ∈ typeKeywords)
    (hrest : afterKeyword? keyword cs = some rest) (h : bracedType? rest = some (type, after)) :
    WritesType cs type := by
  obtain ⟨gap, hcs, hgap, hblank⟩ := afterKeyword?_eq_some hrest
  obtain ⟨hbody, hne, -⟩ := bracedType?_eq_some h
  refine ⟨keyword, hkeyword, [], gap, after, ?_, hgap, hblank, hne⟩
  rw [hcs, hbody, List.nil_append]

theorem isParamName_of_paramName? {after : List Char} (h : paramName? cs = some (name, after)) :
    IsParamName name := by
  unfold paramName? at h
  extract_lets inner at h
  split at h
  next => cases h
  next hne =>
    obtain ⟨rfl, -⟩ := Prod.mk.inj (Option.some.inj h)
    exact ⟨hne, fun c hc => List.mem_takeWhile_imp hc⟩

theorem of_paramAt? (h : paramAt? cs = some field) :
    IsParamName field.name ∧ ∀ t ∈ field.type, WritesType cs t := by
  obtain ⟨rest, hrest, h⟩ := Option.bind_eq_some_iff.1 h
  obtain ⟨⟨name, after⟩, hname, rfl⟩ := Option.map_eq_some_iff.1 h
  refine ⟨isParamName_of_paramName? hname, fun t ht => ?_⟩
  cases htype : bracedType? rest with
  | none =>
    rw [htype] at ht
    cases ht
  | some found =>
    rw [htype] at ht
    obtain rfl := Option.some.inj ht
    exact writesType_of_bracedType? (by decide) hrest htype

theorem of_findParam? (h : findParam? cs = some field) :
    IsParamName field.name ∧ ∀ t ∈ field.type, WritesType cs t := by
  induction cs with
  | nil => cases h
  | cons c cs ih =>
    rw [findParam?] at h
    rcases Option.or_eq_some_iff.1 h with hfound | ⟨-, hfound⟩
    · exact of_paramAt? hfound
    · obtain ⟨hname, htype⟩ := ih hfound
      exact ⟨hname, fun t ht => (htype t ht).cons c⟩

theorem of_returnAt? (h : returnAt? cs = some field) : ∀ t ∈ field.type, WritesType cs t := by
  obtain ⟨rest, hrest, rfl⟩ := Option.map_eq_some_iff.1 h
  intro t ht
  cases htype : bracedType? rest with
  | none =>
    rw [htype] at ht
    cases ht
  | some found =>
    rw [htype] at ht
    obtain rfl := Option.some.inj ht
    rcases Option.or_eq_some_iff.1 hrest with hkeyword | ⟨-, hkeyword⟩
    · exact writesType_of_bracedType? (by decide) hkeyword htype
    · exact writesType_of_bracedType? (by decide) hkeyword htype

theorem of_findReturn? (h : findReturn? cs = some field) : ∀ t ∈ field.type, WritesType cs t := by
  induction cs with
  | nil => cases h
  | cons c cs ih =>
    rw [findReturn?] at h
    rcases Option.or_eq_some_iff.1 h with hfound | ⟨-, hfound⟩
    · exact of_returnAt? hfound
    · exact fun t ht => (ih hfound t ht).cons c

end Found

/-! ### Tags -/

section Tags

variable {ofType : String → Prop} {tag : DocTag}

/-- Whether the types that are written in a tag are as promised. -/
def Promises (ofType : String → Prop) (tag : DocTag) : Prop :=
  ∀ type, WritesType tag.text type → ofType (String.ofList (trim type))

theorem clean_of_parameter? (hpromise : tag.Promises ofType) {parameter : Parameter}
    (h : tag.parameter? = some parameter) : parameter.Clean ofType := by
  obtain ⟨field, hfield, rfl⟩ := Option.map_eq_some_iff.1 h
  obtain ⟨hname, htype⟩ := of_findParam? hfield
  refine ⟨?_, fun text htext => ?_, fun text htext => isClean_of_mem_or htext⟩
  · simpa using hname
  · obtain ⟨t, ht, rfl⟩ := Option.map_eq_some_iff.1 htext
    exact hpromise t (htype t ht)

theorem clean_of_returned? (hpromise : tag.Promises ofType) {returned : Returned}
    (h : tag.returned? = some returned) : returned.Clean ofType := by
  unfold returned? at h
  cases hfound : findReturn? tag.text with
  | none =>
    simp only [hfound] at h
    obtain ⟨hne, hinfo⟩ := Option.ite_none_left_eq_some.1 h
    obtain rfl := Option.some.inj hinfo
    refine ⟨fun text htext => ?_, fun text htext => ?_, Returned.said_of_not_isEmpty hne⟩
    · cases htext
    · obtain ⟨chars, hchars, rfl⟩ := Option.map_eq_some_iff.1 htext
      exact isClean_ofList (of_withoutDash? hchars)
  | some field =>
    simp only [hfound] at h
    obtain ⟨hne, hinfo⟩ := Option.ite_none_left_eq_some.1 h
    obtain rfl := Option.some.inj hinfo
    refine ⟨fun text htext => ?_, fun text htext => isClean_of_mem_or htext,
      Returned.said_of_not_isEmpty hne⟩
    obtain ⟨t, ht, rfl⟩ := Option.map_eq_some_iff.1 htext
    exact hpromise t (of_findReturn? hfound t ht)

/-- Whether a type between the braces of a tag consists of blanks. -/
def HasBlankType (tag : DocTag) : Prop :=
  ∃ type, WritesType tag.text type ∧ ∀ c ∈ type, isBlank c = true

theorem promises_isTrimmed (tag : DocTag) : tag.Promises fun text => IsTrimmed text.toList := by
  intro type _
  rw [String.toList_ofList]
  exact isTrimmed_trim type

theorem promises_isClean (h : ¬ tag.HasBlankType) : tag.Promises IsClean := by
  intro type htype
  refine isClean_ofList ⟨fun hnil => h ⟨type, htype, ?_⟩, isTrimmed_trim type⟩
  exact trim_eq_nil_iff.1 hnil

end Tags

end DocTag

/-! ### Entries -/

section Entries

variable {ofType : String → Prop} {entry : FunctionEntry}

/-- A tag keeps an entry clean. -/
theorem FunctionEntry.Clean.document (h : entry.Clean ofType) {tag : DocTag}
    (hpromise : tag.Promises ofType) : (tag.document entry).Clean ofType := by
  unfold DocTag.document
  split
  next =>
    refine ⟨h.description, fun parameter hparameter => ?_, h.returns⟩
    rcases List.mem_append.1 hparameter with hold | hnew
    · exact h.params parameter hold
    · exact DocTag.clean_of_parameter? hpromise (Option.mem_toList.1 hnew)
  next =>
    split
    next =>
      refine ⟨h.description, h.params, fun returned hreturned => ?_⟩
      rcases Option.or_eq_some_iff.1 hreturned with hnew | ⟨-, hold⟩
      · exact DocTag.clean_of_returned? hpromise hnew
      · exact h.returns returned hold
    next => exact h

theorem FunctionEntry.Clean.foldl_document (h : entry.Clean ofType) {tags : List DocTag}
    (htags : ∀ tag ∈ tags, tag.Promises ofType) :
    (tags.foldl DocTag.document entry).Clean ofType := by
  induction tags generalizing entry with
  | nil => exact h
  | cons tag tags ih =>
    rw [List.foldl_cons]
    exact ih (h.document (htags tag List.mem_cons_self))
      fun other hother => htags other (List.mem_cons_of_mem _ hother)

end Entries

namespace DocComment

variable {raw : List Char} {doc : DocComment}

theorem isClean_description (h : parse? raw = some doc) {text : String}
    (htext : text ∈ doc.description.map String.ofList) : IsClean text := by
  obtain ⟨-, rfl⟩ := parse?_eq_some_iff.1 h
  obtain ⟨chars, hchars, rfl⟩ := Option.map_eq_some_iff.1 htext
  exact isClean_ofList (of_nonEmpty?_trim hchars)

theorem clean_document_of_promises (h : parse? raw = some doc) {ofType : String → Prop}
    (htags : ∀ tag ∈ doc.tags, tag.Promises ofType) (name : String) :
    (doc.document { name := name }).Clean ofType := by
  refine FunctionEntry.Clean.foldl_document ⟨fun text htext => isClean_description h htext, ?_, ?_⟩
    htags
  · intro parameter hparameter
    cases hparameter
  · intro returned hreturned
    cases hreturned

/-- **Documentation carries no empty text except types.** In the entry that a comment fills, every
description is absent or clean, every parameter has a name, and a returned value has a type or a
description. Types have no blanks at their ends, and they are not empty either unless a tag of the
comment has a type of blanks only. -/
theorem clean_document (h : parse? raw = some doc) (name : String) :
    (doc.document { name := name }).Clean (fun text => IsTrimmed text.toList) ∧
      ((∀ tag ∈ doc.tags, ¬ tag.HasBlankType) → (doc.document { name := name }).Clean IsClean) :=
  ⟨clean_document_of_promises h (fun tag _ => tag.promises_isTrimmed) name,
    fun htags => clean_document_of_promises h
      (fun tag htag => DocTag.promises_isClean (htags tag htag)) name⟩

/-- A type of blanks is an opening brace with a blank behind it. -/
theorem exists_tail_of_hasBlankType {tag : DocTag} (h : tag.HasBlankType) :
    ∃ rest ∈ tag.text.tails, rest.head? = some '{' ∧ rest.tail.head?.any isBlank = true := by
  obtain ⟨type, ⟨keyword, -, before, gap, after, htext, -, -, hne⟩, hblank⟩ := h
  obtain ⟨c, cs, rfl⟩ := List.exists_cons_of_ne_nil hne
  refine ⟨'{' :: (c :: cs ++ '}' :: after), ?_, rfl, hblank c List.mem_cons_self⟩
  rw [htext, List.mem_tails]
  exact ⟨before ++ (keyword ++ gap), by simp⟩

theorem clean_document_typed :
    ∃ doc, parse? ("/** Reads.\n * @param \x7bnumber\x7d [n=1] -- \x7bhow\x7d many\n" ++
        " * @returns \x7bT[]\x7d\n */").toList = some doc ∧
      (∀ tag ∈ doc.tags, ¬ tag.HasBlankType) ∧
      (doc.document { name := "read" }).Clean IsClean := by
  have hparse : parse? ("/** Reads.\n * @param \x7bnumber\x7d [n=1] -- \x7bhow\x7d many\n" ++
      " * @returns \x7bT[]\x7d\n */").toList = some ⟨some "Reads.".toList,
        [⟨"param".toList, "\x7bnumber\x7d [n=1] -- \x7bhow\x7d many".toList⟩,
          ⟨"returns".toList, "\x7bT[]\x7d".toList⟩]⟩ := by
    decide +kernel
  have hblank : ∀ tag ∈
      [(⟨"param".toList, "\x7bnumber\x7d [n=1] -- \x7bhow\x7d many".toList⟩ : DocTag),
        ⟨"returns".toList, "\x7bT[]\x7d".toList⟩], ¬ tag.HasBlankType := by
    intro tag htag hblank
    have hnone : ∀ rest ∈ tag.text.tails,
        ¬ (rest.head? = some '{' ∧ rest.tail.head?.any isBlank = true) := by
      simp only [List.mem_cons, List.not_mem_nil, or_false] at htag
      rcases htag with rfl | rfl <;> decide +kernel
    obtain ⟨rest, hrest, hfound⟩ := exists_tail_of_hasBlankType hblank
    exact hnone rest hrest hfound
  exact ⟨_, hparse, hblank, (clean_document hparse "read").2 hblank⟩

/-- A type of blanks is read as an empty one, and a returned value of which nothing else is said is
recorded for it. -/
theorem exists_emptyType :
    ∃ raw doc, parse? raw = some doc ∧
      doc.document { name := "load" } =
        { name := "load", params := [⟨"id", some "", none⟩], returns := some ⟨some "", none⟩ } :=
  ⟨"/**\n * @param \x7b \x7d id\n * @returns \x7b \x7d\n */".toList,
    ⟨none, [⟨"param".toList, "\x7b \x7d id".toList⟩, ⟨"returns".toList, "\x7b \x7d".toList⟩]⟩,
    by decide +kernel, by decide +kernel⟩

end DocComment

end SourceAtlas
