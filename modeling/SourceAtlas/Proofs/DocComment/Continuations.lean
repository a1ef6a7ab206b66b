import SourceAtlas.Proofs.DocComment.Returns

/-!
# Descriptions of several lines

The body of a tag holds the lines that continue it, but not every reader of descriptions goes past
the first one. What follows a parameter's name is read with all its lines, what follows a dash only
up to the end of the line, and so is the description of a returned value (`descriptions_unlines`).
-/

namespace SourceAtlas

open Text

namespace DocTag

variable {type : Option (List Char)} {name first rest : List Char} {form : ParamForm}
  {more : List (List Char)}

/-- A parameter with anything after its name: what follows a dash on its line describes it, or else
all that is left. -/
theorem parameter?_append (htype : ∀ t ∈ type, t ≠ [] ∧ '}' ∉ t) (hname : IsParamName name)
    (hform : form.WellFormed) (hrest : rest.head?.all isBlank = true) :
    parameter? ⟨"param".toList, ParamLine.typeText type ++ (form.text name ++ rest)⟩ =
      some ⟨String.ofList name, type.map fun t => String.ofList (trim t),
        ((nonEmpty? (trim (afterDash rest))).or (withoutDash? (trimStart rest))).map
          String.ofList⟩ := by
  have hne : ParamLine.typeText type ++ (form.text name ++ rest) ≠ [] := by
    have hform : form.text name ≠ [] := by
      cases form with
      | plain => exact hname.ne_nil
      | bracketed | withDefault => exact List.cons_ne_nil _ _
    simp [hform]
  have hfound := findParam?_of_paramAt? (paramAt?_append htype hname hform hrest)
  have htext : text ⟨"param".toList, ParamLine.typeText type ++ (form.text name ++ rest)⟩ =
      "@param".toList ++ ' ' :: (ParamLine.typeText type ++ (form.text name ++ rest)) :=
    text_of_ne_nil hne
  rw [parameter?, htext, hfound, Option.map_some,
    withoutName_withoutType_append (fun t ht => (htype t ht).2) hname hform hrest]

theorem head?_flatMap_newLine (more : List (List Char)) :
    (more.flatMap ('\n' :: ·)).head?.any (fun c => decide (c ≠ '\n')) = false := by
  cases more <;> rfl

/-- **Only what follows a name without a dash is read with all its lines.** For a text of lines after
a type and a name: behind a dash, the first line describes the parameter; without a dash, all the
lines do. A returned value is described by the first line again. -/
theorem descriptions_unlines (htype : ∀ t ∈ type, t ≠ [] ∧ '}' ∉ t) (hname : IsParamName name)
    (hlines : ∀ line ∈ first :: more, IsDescription line) (hdash : first.head? ≠ some '-')
    (hbrace : first.head? ≠ some '{') :
    parameter? ⟨"param".toList, ParamLine.typeText type ++
          (name ++ ' ' :: '-' :: ' ' :: unlines (first :: more))⟩ =
        some ⟨String.ofList name, type.map fun t => String.ofList (trim t),
          some (String.ofList first)⟩ ∧
      parameter? ⟨"param".toList, ParamLine.typeText type ++
          (name ++ ' ' :: unlines (first :: more))⟩ =
        some ⟨String.ofList name, type.map fun t => String.ofList (trim t),
          some (String.ofList (unlines (first :: more)))⟩ ∧
      ∀ tagName ∈ returnNames,
        returned? ⟨tagName, ParamLine.typeText type ++ unlines (first :: more)⟩ =
          some ⟨type.map fun t => String.ofList (trim t), some (String.ofList first)⟩ := by
  have hfirst := hlines first List.mem_cons_self
  have hbreak := head?_flatMap_newLine more
  have htrimmed : IsTrimmed (unlines (first :: more)) :=
    isTrimmed_unlines fun line hline => ⟨(hlines line hline).ne_nil, (hlines line hline).isTrimmed⟩
  have hhead : (unlines (first :: more)).head? = first.head? := by
    rw [unlines_cons, List.head?_append_of_ne_nil _ hfirst.ne_nil]
  have hne : unlines (first :: more) ≠ [] := by simp [unlines_cons, hfirst.ne_nil]
  have hplain : ParamForm.plain.WellFormed := trivial
  have hspace : ∀ cs : List Char, (' ' :: cs).head?.all isBlank = true := fun _ => rfl
  refine ⟨?_, ?_, ?_⟩
  · have hline : afterDash (' ' :: '-' :: ' ' :: unlines (first :: more)) = first := by
      rw [unlines_cons, afterDash_append hfirst hbreak]
    have hread := parameter?_append htype hname hplain (hspace ('-' :: ' ' :: unlines (first :: more)))
    rw [hline, hfirst.isTrimmed.trim_eq, nonEmpty?_eq_some_iff.2 ⟨hfirst.ne_nil, rfl⟩] at hread
    exact hread
  · have hline : afterDash (' ' :: unlines (first :: more)) = [] :=
      afterDash_space htrimmed.1 (by rwa [hhead])
    have hread := parameter?_append htype hname hplain (hspace (unlines (first :: more)))
    rw [hline, trimStart_space htrimmed.1,
      withoutDash?_of_head? hne htrimmed (by rwa [hhead])] at hread
    exact hread
  · intro tagName htagName
    rw [unlines_cons]
    exact returned?_append htagName htype hfirst hbrace hbreak

theorem descriptions_unlines_awkward :
    (∀ line ∈ ["The id".toList, "- of \x7ba user\x7d".toList, "@ home".toList],
        IsDescription line) ∧
      parameter? ⟨"param".toList,
          "\x7b number\n| null \x7d $user.id - The id\n- of \x7ba user\x7d\n@ home".toList⟩ =
        some ⟨"$user.id", some "number\n| null", some "The id"⟩ ∧
      parameter? ⟨"param".toList,
          "\x7b number\n| null \x7d $user.id The id\n- of \x7ba user\x7d\n@ home".toList⟩ =
        some ⟨"$user.id", some "number\n| null", some "The id\n- of \x7ba user\x7d\n@ home"⟩ ∧
      returned? ⟨"returns".toList,
          "\x7b number\n| null \x7d The id\n- of \x7ba user\x7d\n@ home".toList⟩ =
        some ⟨some "number\n| null", some "The id"⟩ := by
  have hlines : ∀ line ∈ ["The id".toList, "- of \x7ba user\x7d".toList, "@ home".toList],
      IsDescription line := by
    intro line hline
    simp only [List.mem_cons, List.not_mem_nil, or_false] at hline
    rcases hline with rfl | rfl | rfl <;> exact ⟨by decide, by decide, by decide⟩
  have htype : ∀ t ∈ some " number\n| null ".toList, t ≠ [] ∧ '}' ∉ t := by
    rintro t ⟨rfl⟩
    decide
  have hname : IsParamName "$user.id".toList :=
    ⟨by decide, List.all_eq_true.1 (by decide +kernel)⟩
  obtain ⟨hdashed, hspaced, hreturned⟩ :=
    descriptions_unlines htype hname hlines (by decide) (by decide)
  exact ⟨hlines, hdashed, hspaced, hreturned "returns".toList (by decide)⟩

/-- A description behind a dash, and one of a returned value, lose their second lines. -/
theorem exists_continuation_lost :
    ∃ name first second : List Char, (name ≠ [] ∧ name.all isParamNameChar = true) ∧
      (first ≠ [] ∧ IsTrimmed first ∧ '\n' ∉ first ∧ first.head? ≠ some '-' ∧
        first.head? ≠ some '{') ∧
      (second ≠ [] ∧ IsTrimmed second ∧ '\n' ∉ second) ∧
      parameter? ⟨"param".toList, name ++ ' ' :: '-' :: ' ' :: unlines [first, second]⟩ ≠
        some ⟨String.ofList name, none, some (String.ofList (unlines [first, second]))⟩ ∧
      returned? ⟨"returns".toList, unlines [first, second]⟩ ≠
        some ⟨none, some (String.ofList (unlines [first, second]))⟩ :=
  ⟨"id".toList, "The id".toList, "of the user".toList, by decide +kernel, by decide, by decide,
    by decide +kernel, by decide +kernel⟩

end DocTag

end SourceAtlas
