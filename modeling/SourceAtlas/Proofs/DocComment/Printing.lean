import SourceAtlas.Proofs.DocComment.Tags

/-!
# Printing documentation comments

`DocComment.render` writes a comment with one line for each line of its description and its tags.
Reading it gives the comment back if it is well formed, and whatever is read is well formed, so the
well-formed comments are those that can be read at all (`wellFormed_parse?_render`).

The lines between the delimiters are the same in both directions: what is written is found again
behind its margin (`contentLines_render`), and what is found behind a margin is trimmed and holds no
line break (`of_mem_contentLines`).
-/

namespace SourceAtlas.DocComment

open Text Comment

/-- Whether a comment can be written down and read again: its description is absent, or a text of
trimmed lines, none of which looks like a tag and the first and the last of which are not empty. -/
structure WellFormed (doc : DocComment) : Prop where
  description : ∀ text, doc.description = some text → text ≠ [] ∧
    (∀ line ∈ lines text, IsTrimmed line ∧ ¬ DocTag.StartsTag line) ∧
      EndsClear List.isEmpty (lines text)
  tags : ∀ tag ∈ doc.tags, tag.WellFormed

/-- What stands in front of a line. -/
def margin : List Char := [' ', '*', ' ']

/-- The lines of the description. -/
def descriptionLines (doc : DocComment) : List (List Char) := doc.description.elim [] lines

/-- The lines of the description and of the tags. -/
def textLines (doc : DocComment) : List (List Char) :=
  doc.descriptionLines ++ doc.tags.flatMap fun tag => lines tag.text

/-- The comment as it is written, one line for each line of its text. -/
def render (doc : DocComment) : List Char :=
  unlines ([docOpening] ++ doc.textLines.map (margin ++ ·) ++ [' ' :: closing])

/-- The comment that is read from the lines between the delimiters. -/
def ofContent (content : List (List Char)) : DocComment :=
  ⟨nonEmpty? (trim (unlines (leading content))), tagsOf content⟩

theorem parse?_eq_some_iff {comment : List Char} {doc : DocComment} :
    parse? comment = some doc ↔
      isDoc (trim comment) = true ∧ ofContent (contentLines (trim comment)) = doc := by
  show (if isDoc (trim comment) = true then some (ofContent (contentLines (trim comment))) else none)
    = some doc ↔ _
  split_ifs with hdoc <;> simp [hdoc]

/-! ### Lines behind their margins -/

theorem contentLine_margin {line : List Char} (h : IsTrimmed line) :
    contentLine (margin ++ line) = line := by
  by_cases hline : line = []
  · subst hline
    decide
  · have htrim : trim (margin ++ line) = '*' :: ' ' :: line :=
      trim_space (isTrimmed_cons_append [' '] (by decide) hline h.2)
    rw [contentLine, htrim]
    exact trim_space h

theorem isTrimmed_contentLine (line : List Char) : IsTrimmed (contentLine line) := by
  unfold contentLine
  split <;> exact isTrimmed_trim _

theorem mem_of_mem_contentLine {line : List Char} {c : Char} (h : c ∈ contentLine line) :
    c ∈ line := by
  unfold contentLine at h
  split at h
  next rest hrest =>
    have hc : c ∈ trim line := hrest ▸ List.mem_cons_of_mem _ (mem_of_mem_stripEnds h)
    exact mem_of_mem_stripEnds hc
  next => exact mem_of_mem_stripEnds (mem_of_mem_stripEnds h)

/-- The lines of a comment are trimmed, and are lines. -/
theorem of_mem_contentLines {raw line : List Char} (h : line ∈ contentLines raw) :
    IsTrimmed line ∧ '\n' ∉ line := by
  obtain ⟨written, hwritten, rfl⟩ := List.mem_map.1 h
  exact ⟨isTrimmed_contentLine written,
    fun hmem => notMem_of_mem_splitOn hwritten (mem_of_mem_contentLine hmem)⟩

/-! ### The lines of a written comment -/

section Written

variable {doc : DocComment}

/-- The description is found again in its lines. -/
theorem WellFormed.nonEmpty?_unlines (h : doc.WellFormed) :
    nonEmpty? (unlines doc.descriptionLines) = doc.description := by
  unfold descriptionLines
  cases htext : doc.description with
  | none => rfl
  | some text =>
    rw [Option.elim_some, unlines, lines, List.intercalate_splitOn, nonEmpty?_eq_some_iff]
    exact ⟨(h.description text htext).1, rfl⟩

theorem WellFormed.of_mem_descriptionLines (h : doc.WellFormed) {line : List Char}
    (hline : line ∈ doc.descriptionLines) :
    IsTrimmed line ∧ '\n' ∉ line ∧ DocTag.opening? line = none := by
  unfold descriptionLines at hline
  cases htext : doc.description with
  | none =>
    rw [htext] at hline
    cases hline
  | some text =>
    rw [htext] at hline
    obtain ⟨-, hlines, -⟩ := h.description text htext
    obtain ⟨htrimmed, htag⟩ := hlines line hline
    exact ⟨htrimmed, notMem_of_mem_splitOn hline, DocTag.opening?_eq_none_iff.2 htag⟩

theorem WellFormed.endsClear_descriptionLines (h : doc.WellFormed) :
    EndsClear List.isEmpty doc.descriptionLines := by
  unfold descriptionLines
  cases htext : doc.description with
  | none => exact ⟨rfl, rfl⟩
  | some text => exact (h.description text htext).2.2

/-- Every written line is trimmed, and is a line. -/
theorem WellFormed.of_mem_textLines (h : doc.WellFormed) {line : List Char}
    (hline : line ∈ doc.textLines) : IsTrimmed line ∧ '\n' ∉ line := by
  rcases List.mem_append.1 hline with hline | hline
  · obtain ⟨htrimmed, hbreak, -⟩ := h.of_mem_descriptionLines hline
    exact ⟨htrimmed, hbreak⟩
  · obtain ⟨tag, htag, hline⟩ := List.mem_flatMap.1 hline
    exact ⟨(h.tags tag htag).isTrimmed_of_mem_lines hline, notMem_of_mem_splitOn hline⟩

/-- What stands between the delimiters of a written comment. -/
theorem render_eq (doc : DocComment) :
    doc.render = docOpening ++
      (unlines ([[]] ++ doc.textLines.map (margin ++ ·) ++ [[' ']]) ++ closing) :=
  unlines_enclosed docOpening [' '] closing _

/-- The lines of a written comment are found again behind their margins, between an empty line and
another one. -/
theorem contentLines_render (h : doc.WellFormed) :
    contentLines doc.render = [[]] ++ doc.textLines ++ [[]] := by
  have hbreaks : ∀ part ∈ [[]] ++ doc.textLines.map (margin ++ ·) ++ [[' ']], '\n' ∉ part := by
    intro part hpart
    simp only [List.mem_append, List.mem_singleton, List.mem_map] at hpart
    rcases hpart with (rfl | ⟨line, hline, rfl⟩) | rfl
    · simp
    · simpa [margin] using (h.of_mem_textLines hline).2
    · simp
  have hstart : ¬ docOpening <+:
      unlines ([[]] ++ doc.textLines.map (margin ++ ·) ++ [[' ']]) ++ closing := by
    rw [List.append_assoc, unlines, intercalate_append (by simp) (by simp)]
    rintro ⟨rest, hrest⟩
    cases hrest
  have hend : ¬ closing <:+ unlines ([[]] ++ doc.textLines.map (margin ++ ·) ++ [[' ']]) := by
    rw [unlines, intercalate_concat (by simp)]
    rintro ⟨rest, hrest⟩
    have hlast := congrArg List.getLast? hrest
    simp [closing] at hlast
  have hlines : lines (unlines ([[]] ++ doc.textLines.map (margin ++ ·) ++ [[' ']])) =
      [[]] ++ doc.textLines.map (margin ++ ·) ++ [[' ']] :=
    List.splitOn_intercalate '\n' hbreaks (by simp)
  have hmargins : (doc.textLines.map (margin ++ ·)).map contentLine = doc.textLines := by
    have hline : ∀ line ∈ doc.textLines, (contentLine ∘ (margin ++ ·)) line = id line :=
      fun line hline => contentLine_margin (h.of_mem_textLines hline).1
    rw [List.map_map, List.map_congr_left hline, List.map_id]
  rw [contentLines, render_eq, dropPrefixes_append (by decide) hstart,
    dropSuffixes_append (by decide) hend, hlines, List.map_append, List.map_append, hmargins]
  rfl

theorem leading_append {before : List (List Char)}
    (hbefore : ∀ line ∈ before, DocTag.opening? line = none) (rest : List (List Char)) :
    leading (before ++ rest) = before ++ leading rest :=
  List.takeWhile_append_of_pos fun line hline => by simp [hbefore line hline]

theorem tagsOf_append {before : List (List Char)}
    (hbefore : ∀ line ∈ before, DocTag.opening? line = none) (rest : List (List Char)) :
    tagsOf (before ++ rest) = tagsOf rest := by
  unfold tagsOf
  rw [List.dropWhile_append_of_pos fun line hline => by simp [hbefore line hline]]

theorem leading_of_opening? {line : List Char} {tag : DocTag} (h : DocTag.opening? line = some tag)
    (rest : List (List Char)) : leading (line :: rest) = [] := by
  simp [leading, h]

theorem tagsOf_of_opening? {line : List Char} {tag : DocTag} (h : DocTag.opening? line = some tag)
    (rest : List (List Char)) : tagsOf (line :: rest) = DocTag.group tag rest := by
  simp [tagsOf, h]

/-- Behind the description only tags are found. -/
theorem tagsOf_flatMap {tags : List DocTag} (h : ∀ tag ∈ tags, tag.WellFormed) :
    tagsOf (tags.flatMap (fun tag => lines tag.text) ++ [[]]) = tags ∧
      ∀ line ∈ leading (tags.flatMap (fun tag => lines tag.text) ++ [[]]), line = [] := by
  cases tags with
  | nil => exact ⟨rfl, by decide⟩
  | cons tag tags =>
    obtain ⟨first, more, opened, hlines, hopen, hmore, htag⟩ :=
      (h tag List.mem_cons_self).exists_opening
    have hgroup := DocTag.group_flatMap (fun t ht => h t (List.mem_cons_of_mem _ ht)) tag
    rw [List.flatMap_cons, hlines, List.append_assoc, List.cons_append, tagsOf_of_opening? hopen,
      leading_of_opening? hopen, DocTag.group_append hmore, htag, hgroup]
    exact ⟨rfl, by simp⟩

/-- A well-formed comment is found again in its lines. -/
theorem WellFormed.ofContent_eq (h : doc.WellFormed) :
    ofContent ([[]] ++ doc.textLines ++ [[]]) = doc := by
  have hlead : ∀ line ∈ [[]] ++ doc.descriptionLines,
      IsTrimmed line ∧ DocTag.opening? line = none := by
    intro line hline
    rcases List.mem_append.1 hline with hline | hline
    · rw [List.mem_singleton.1 hline]
      exact ⟨⟨rfl, rfl⟩, rfl⟩
    · obtain ⟨htrimmed, -, hopen⟩ := h.of_mem_descriptionLines hline
      exact ⟨htrimmed, hopen⟩
  obtain ⟨htags, hrest⟩ := tagsOf_flatMap h.tags
  -- the empty lines around the description are those that trimming removes
  have hstrip : trim (unlines ([[]] ++ doc.descriptionLines ++
      leading (doc.tags.flatMap (fun tag => lines tag.text) ++ [[]]))) =
        unlines doc.descriptionLines := by
    rw [trim_unlines, stripEnds_append h.endsClear_descriptionLines (by simp)
      fun line hline => List.isEmpty_iff.2 (hrest line hline)]
    intro line hline
    rcases List.mem_append.1 hline with hline | hline
    · exact (hlead line hline).1
    · rw [hrest line hline]
      exact ⟨rfl, rfl⟩
  rw [textLines, ← List.append_assoc, List.append_assoc, ofContent,
    leading_append fun line hline => (hlead line hline).2,
    tagsOf_append fun line hline => (hlead line hline).2, hstrip, htags, h.nonEmpty?_unlines]

/-- A well-formed comment is read as it was written. -/
theorem WellFormed.parse?_eq (h : doc.WellFormed) : parse? doc.render = some doc := by
  have htrim : trim doc.render = doc.render := by
    have htrimmed : IsTrimmed ('/' :: (('*' :: '*' ::
        unlines ([[]] ++ doc.textLines.map (margin ++ ·) ++ [[' ']])) ++ closing)) :=
      isTrimmed_cons_append _ (by decide) (by decide) (by decide)
    rw [render_eq]
    exact htrimmed.trim_eq
  have hdoc : isDoc doc.render = true := by
    rw [render_eq, List.append_assoc, unlines, intercalate_append (by simp) (by simp)]
    rfl
  rw [parse?_eq_some_iff, htrim, contentLines_render h, h.ofContent_eq]
  exact ⟨hdoc, rfl⟩

end Written

/-! ### What is read -/

section Read

variable {content : List (List Char)} (h : ∀ line ∈ content, IsTrimmed line ∧ '\n' ∉ line)

include h

theorem wellFormed_of_mem_tagsOf {tag : DocTag} (htag : tag ∈ tagsOf content) : tag.WellFormed := by
  unfold tagsOf at htag
  split at htag
  next => cases htag
  next line rest hdrop =>
    have hmem : ∀ l ∈ line :: rest, l ∈ content :=
      fun l hl => (List.dropWhile_suffix _).subset (hdrop ▸ hl)
    split at htag
    next first hopen =>
      exact DocTag.wellFormed_of_mem_group
        (DocTag.wellFormed_of_opening? hopen (h line (hmem line List.mem_cons_self)).2)
        (fun l hl => h l (hmem l (List.mem_cons_of_mem _ hl))) tag htag
    next => cases htag

/-- The description is the text of the lines that are left when the empty ones at the ends are
removed. -/
theorem description_ofContent {text : List Char}
    (htext : (ofContent content).description = some text) :
    text ≠ [] ∧ lines text = stripEnds List.isEmpty (leading content) := by
  have hlead : ∀ line ∈ leading content, line ∈ content := List.takeWhile_subset _
  obtain ⟨hne, htrim⟩ := nonEmpty?_eq_some_iff.1 htext
  rw [trim_unlines fun line hline => (h line (hlead line hline)).1] at htrim
  refine ⟨hne, ?_⟩
  rw [← htrim]
  refine List.splitOn_intercalate '\n' (fun line hline => ?_) ?_
  · exact (h line (hlead line (mem_of_mem_stripEnds hline))).2
  intro hempty
  rw [hempty] at htrim
  exact hne htrim.symm

theorem wellFormed_ofContent : (ofContent content).WellFormed := by
  refine ⟨fun text htext => ?_, fun tag htag => wellFormed_of_mem_tagsOf h htag⟩
  obtain ⟨hne, hlines⟩ := description_ofContent h htext
  rw [hlines]
  refine ⟨hne, fun line hline => ?_, endsClear_stripEnds _ _⟩
  have hlead : line ∈ leading content := mem_of_mem_stripEnds hline
  have hopen : DocTag.opening? line = none := by simpa using List.mem_takeWhile_imp hlead
  exact ⟨(h line (List.takeWhile_subset _ hlead)).1, DocTag.opening?_eq_none_iff.1 hopen⟩

end Read

/-- **Reading undoes printing, and what is read can be printed.** A well-formed comment is read as it
was written, and every comment that is read is well formed, so it is read again after printing. -/
theorem wellFormed_parse?_render (doc : DocComment) :
    (doc.WellFormed → parse? doc.render = some doc) ∧
      ∀ raw, parse? raw = some doc → doc.WellFormed ∧ parse? doc.render = some doc := by
  refine ⟨fun h => h.parse?_eq, fun raw hraw => ?_⟩
  obtain ⟨-, rfl⟩ := parse?_eq_some_iff.1 hraw
  have hdoc : (ofContent (contentLines (trim raw))).WellFormed :=
    wellFormed_ofContent fun line hline => of_mem_contentLines hline
  exact ⟨hdoc, hdoc.parse?_eq⟩

/-- A comment whose lines start with stars, slashes and signs, with a tag whose first line looks like
another one and a tag without a body. -/
def awkwardComment : DocComment :=
  { description := some "* a list */\n\n@1 and / more".toList
    tags := [⟨"param".toList, "@link {x}\n*/ - rest".toList⟩, ⟨"internal".toList, []⟩] }

theorem parse?_awkwardComment :
    awkwardComment.WellFormed ∧
      awkwardComment.render = ("/**\n * * a list */\n * \n * @1 and / more\n" ++
        " * @param @link {x}\n * */ - rest\n * @internal\n */").toList ∧
      parse? awkwardComment.render = some awkwardComment := by
  have hdescription : ∀ line ∈ lines "* a list */\n\n@1 and / more".toList,
      IsTrimmed line ∧ ¬ DocTag.StartsTag line := by
    decide +kernel
  have hwellFormed : awkwardComment.WellFormed := by
    refine ⟨fun text htext => ?_, fun tag htag => ?_⟩
    · obtain rfl := Option.some.inj htext
      exact ⟨by decide +kernel, hdescription, by decide +kernel⟩
    · rcases List.mem_cons.1 htag with rfl | htag
      · exact ⟨by decide +kernel, List.all_eq_true.1 (by decide +kernel),
          fun _ => by decide +kernel, by decide +kernel⟩
      · obtain rfl := List.mem_singleton.1 htag
        exact ⟨by decide +kernel, List.all_eq_true.1 (by decide +kernel),
          fun h => absurd rfl h, by decide +kernel⟩
  exact ⟨hwellFormed, by decide +kernel, (wellFormed_parse?_render awkwardComment).1 hwellFormed⟩

end SourceAtlas.DocComment
