import SourceAtlas.DocComment.Basic
import SourceAtlas.Proofs.Text.Trimming

/-!
# The tags of documentation comments

`DocTag.WellFormed` describes the tags that can be written down, line by line, and read again. A
well-formed tag is found again in its lines (`WellFormed.exists_opening`), and so are the tags of a
list (`group_flatMap`). The other way round, whatever lines are grouped into tags, the tags are
well formed (`wellFormed_of_mem_group`): the first line of a tag gives a well-formed one, and every
further line keeps it so.
-/

namespace SourceAtlas.DocTag

open Text

/-- Whether a line starts with `@` and a letter. -/
def StartsTag (line : List Char) : Prop :=
  ∃ c rest, line = '@' :: c :: rest ∧ c.isAlpha = true

/-- A name of letters, and a body that is empty or consists of trimmed lines that are not empty, of
which only the first may look like another tag. -/
structure WellFormed (tag : DocTag) : Prop where
  name_ne_nil : tag.name ≠ []
  isAlpha_of_mem : ∀ c ∈ tag.name, c.isAlpha = true
  line : tag.body ≠ [] → ∀ line ∈ lines tag.body, line ≠ [] ∧ IsTrimmed line
  not_startsTag : ∀ line ∈ (lines tag.body).tail, ¬ StartsTag line

/-! ### Lines that open a tag -/

section Opening

variable {tag : DocTag} {line : List Char}

/-- A line is divided after the letters that follow its `@`. -/
theorem opening?_eq_some (h : opening? line = some tag) :
    tag.name ≠ [] ∧ (∀ c ∈ tag.name, c.isAlpha = true) ∧
      ∃ rest, line = '@' :: (tag.name ++ rest) ∧ tag.body = trim rest := by
  unfold opening? at h
  split at h
  next rest =>
    split at h
    next => cases h
    next hne =>
      obtain rfl := Option.some.inj h
      refine ⟨hne, fun c hc => List.mem_takeWhile_imp hc, rest.dropWhile isNameChar, ?_, rfl⟩
      rw [List.takeWhile_append_dropWhile]
  next => cases h

theorem opening?_letters {name rest : List Char} (hne : name ≠ [])
    (hname : ∀ c ∈ name, c.isAlpha = true) (hrest : rest.head?.any Char.isAlpha = false) :
    opening? ('@' :: (name ++ rest)) = some ⟨name, trim rest⟩ := by
  have hletters : ∀ c ∈ name, isNameChar c = true := hname
  have htake : (name ++ rest).takeWhile isNameChar = name := takeWhile_append_stop hletters hrest
  have hdrop : (name ++ rest).dropWhile isNameChar = rest := dropWhile_append_stop hletters hrest
  rw [opening?, htake, hdrop]
  split
  next => exact absurd rfl hne
  next => rfl

theorem opening?_eq_none_iff : opening? line = none ↔ ¬ StartsTag line := by
  constructor
  · rintro h ⟨c, rest, rfl, hc⟩
    have htake : (c :: rest).takeWhile isNameChar = c :: rest.takeWhile isNameChar :=
      List.takeWhile_cons_of_pos hc
    rw [opening?, htake] at h
    cases h
  · intro h
    cases hopen : opening? line with
    | none => rfl
    | some tag =>
      obtain ⟨hne, hname, rest, hline, -⟩ := opening?_eq_some hopen
      obtain ⟨c, cs, hcs⟩ := List.exists_cons_of_ne_nil hne
      refine absurd ⟨c, cs ++ rest, ?_, hname c (by simp [hcs])⟩ h
      rw [hline, hcs, List.cons_append]

instance : DecidablePred StartsTag := fun line =>
  decidable_of_iff (¬ opening? line = none) (by rw [opening?_eq_none_iff, not_not])

end Opening

/-! ### Reading written tags -/

section Reading

variable {tag : DocTag}

/-- Further lines are added to a body that is not empty. -/
theorem foldl_extend {name body : List Char} (hbody : body ≠ []) {more : List (List Char)}
    (hmore : ∀ line ∈ more, line ≠ []) :
    more.foldl extend ⟨name, body⟩ = ⟨name, unlines (body :: more)⟩ := by
  induction more generalizing body with
  | nil => rw [List.foldl_nil, unlines_singleton]
  | cons line more ih =>
    have hline := hmore line List.mem_cons_self
    have hstep : extend ⟨name, body⟩ line = ⟨name, body ++ '\n' :: line⟩ := by
      simp [extend, hline, hbody]
    rw [List.foldl_cons, hstep, ih (by simp) fun l hl => hmore l (List.mem_cons_of_mem _ hl)]
    cases more <;> simp [unlines, List.intercalate_cons_cons]

theorem WellFormed.newLine_notMem_name (h : tag.WellFormed) : '\n' ∉ tag.name :=
  fun hmem => absurd (h.isAlpha_of_mem _ hmem) (by decide)

theorem lines_text_of_nil {name : List Char} (hname : '\n' ∉ name) :
    lines (text ⟨name, []⟩) = ['@' :: name] :=
  List.splitOn_eq_singleton (by simpa [text] using hname)

/-- The first line of a body stands behind the name. -/
theorem lines_text_of_cons {name body first : List Char} {more : List (List Char)}
    (hname : '\n' ∉ name) (hbody : body ≠ []) (hlines : lines body = first :: more) :
    lines (text ⟨name, body⟩) = ('@' :: (name ++ ' ' :: first)) :: more := by
  have htext : text ⟨name, body⟩ = ('@' :: name ++ [' ']) ++ body := by simp [text, hbody]
  have hsplit : lines (('@' :: name ++ [' ']) ++ body) =
      (('@' :: name ++ [' ']) ++ first) :: more :=
    splitOn_append_of_notMem (by simpa using hname) hlines
  rw [htext, hsplit]
  simp

theorem WellFormed.isTrimmed_of_mem_lines (h : tag.WellFormed) {line : List Char}
    (hline : line ∈ lines tag.text) : IsTrimmed line := by
  obtain ⟨name, body⟩ := tag
  by_cases hbody : body = []
  · subst hbody
    rw [lines_text_of_nil h.newLine_notMem_name, List.mem_singleton] at hline
    rw [hline]
    refine isTrimmed_cons_append [] (by decide) h.name_ne_nil ?_
    rw [List.getLast?_eq_some_getLast h.name_ne_nil]
    exact isBlank_of_isAlpha (h.isAlpha_of_mem _ (List.getLast_mem h.name_ne_nil))
  · obtain ⟨first, more, hlines⟩ := List.exists_cons_of_ne_nil (List.splitOn_ne_nil '\n' body)
    have hbodyLine : ∀ line ∈ first :: more, line ≠ [] ∧ IsTrimmed line := hlines ▸ h.line hbody
    rw [lines_text_of_cons h.newLine_notMem_name hbody hlines] at hline
    rcases List.mem_cons.1 hline with rfl | hmem
    · obtain ⟨hne, hfirst⟩ := hbodyLine first List.mem_cons_self
      have htrimmed := isTrimmed_cons_append (name ++ [' ']) (by decide : isBlank '@' = false) hne
        hfirst.2
      simpa using htrimmed
    · exact (hbodyLine line (List.mem_cons_of_mem _ hmem)).2

/-- A well-formed tag is found again in its lines: the first one opens it, and the others, which
open none, make it complete. -/
theorem WellFormed.exists_opening (h : tag.WellFormed) :
    ∃ first more opened, lines tag.text = first :: more ∧ opening? first = some opened ∧
      (∀ line ∈ more, opening? line = none) ∧ more.foldl extend opened = tag := by
  obtain ⟨name, body⟩ := tag
  by_cases hbody : body = []
  · subst hbody
    have hopen : opening? ('@' :: (name ++ [])) = some ⟨name, trim []⟩ :=
      opening?_letters h.name_ne_nil h.isAlpha_of_mem rfl
    rw [List.append_nil] at hopen
    exact ⟨'@' :: name, [], ⟨name, []⟩, lines_text_of_nil h.newLine_notMem_name, hopen, by simp, rfl⟩
  · obtain ⟨first, more, hlines⟩ := List.exists_cons_of_ne_nil (List.splitOn_ne_nil '\n' body)
    have hline : ∀ line ∈ first :: more, line ≠ [] ∧ IsTrimmed line := hlines ▸ h.line hbody
    have hopen : opening? ('@' :: (name ++ ' ' :: first)) = some ⟨name, trim (' ' :: first)⟩ :=
      opening?_letters h.name_ne_nil h.isAlpha_of_mem rfl
    rw [trim_space (hline first List.mem_cons_self).2] at hopen
    refine ⟨_, more, ⟨name, first⟩, lines_text_of_cons h.newLine_notMem_name hbody hlines, hopen,
      ?_, ?_⟩
    · intro line hmem
      refine opening?_eq_none_iff.2 (h.not_startsTag line ?_)
      rw [lines, hlines]
      exact hmem
    · rw [foldl_extend (hline first List.mem_cons_self).1
        fun line hmem => (hline line (List.mem_cons_of_mem _ hmem)).1, unlines, ← hlines,
        List.intercalate_splitOn]

theorem group_append {more : List (List Char)} (hmore : ∀ line ∈ more, opening? line = none)
    (tag : DocTag) (rest : List (List Char)) :
    group tag (more ++ rest) = group (more.foldl extend tag) rest := by
  induction more generalizing tag with
  | nil => rfl
  | cons line more ih =>
    rw [List.cons_append, group, hmore line List.mem_cons_self]
    exact ih (fun l hl => hmore l (List.mem_cons_of_mem _ hl)) _

/-- Well-formed tags are found again in their lines, one after the other. -/
theorem group_flatMap {tags : List DocTag} (h : ∀ tag ∈ tags, tag.WellFormed) (tag : DocTag) :
    group tag (tags.flatMap (fun tag => lines tag.text) ++ [[]]) = tag :: tags := by
  induction tags generalizing tag with
  | nil => rfl
  | cons next tags ih =>
    obtain ⟨first, more, opened, hlines, hopen, hmore, hnext⟩ :=
      (h next List.mem_cons_self).exists_opening
    have hrest := ih (fun t ht => h t (List.mem_cons_of_mem _ ht)) next
    rw [List.flatMap_cons, hlines, List.append_assoc, List.cons_append, group, hopen]
    show tag :: group opened (more ++ _) = _
    rw [group_append hmore, hnext, hrest]

end Reading

/-! ### What is read is well formed -/

section WellFormed

variable {tag : DocTag} {line : List Char}

theorem wellFormed_of_opening? (h : opening? line = some tag) (hbreak : '\n' ∉ line) :
    tag.WellFormed := by
  obtain ⟨hne, hname, rest, hline, hbody⟩ := opening?_eq_some h
  have hnotMem : '\n' ∉ tag.body := by
    intro hmem
    rw [hbody] at hmem
    exact hbreak (hline ▸ List.mem_cons_of_mem _
      (List.mem_append_right _ (mem_of_mem_stripEnds hmem)))
  have hlines : lines tag.body = [tag.body] := List.splitOn_eq_singleton hnotMem
  refine ⟨hne, hname, fun hbodyNe l hl => ?_, fun l hl => ?_⟩
  · rw [hlines, List.mem_singleton] at hl
    rw [hl]
    exact ⟨hbodyNe, hbody ▸ isTrimmed_trim rest⟩
  · rw [hlines] at hl
    cases hl

/-- A further line keeps a tag well formed. -/
theorem WellFormed.extend (h : tag.WellFormed) (hline : IsTrimmed line) (hbreak : '\n' ∉ line)
    (hopen : opening? line = none) : (tag.extend line).WellFormed := by
  have hlines : lines line = [line] := List.splitOn_eq_singleton hbreak
  unfold DocTag.extend
  split
  next => exact h
  next hne =>
    have hne : line ≠ [] := by simpa using hne
    split
    next =>
      refine ⟨h.name_ne_nil, h.isAlpha_of_mem, fun _ l hl => ?_, fun l hl => ?_⟩
      · rw [hlines, List.mem_singleton] at hl
        rw [hl]
        exact ⟨hne, hline⟩
      · rw [hlines] at hl
        cases hl
    next hbody =>
      have hbody : tag.body ≠ [] := by simpa using hbody
      have happend : lines (tag.body ++ '\n' :: line) = lines tag.body ++ [line] := by
        rw [← hlines]
        exact List.splitOn_append_cons_self tag.body line
      refine ⟨h.name_ne_nil, h.isAlpha_of_mem, fun _ l hl => ?_, fun l hl => ?_⟩
      · rw [happend] at hl
        rcases List.mem_append.1 hl with hl | hl
        · exact h.line hbody l hl
        · rw [List.mem_singleton.1 hl]
          exact ⟨hne, hline⟩
      · have hfirst : lines tag.body ≠ [] := List.splitOn_ne_nil '\n' tag.body
        rw [happend, List.tail_append_of_ne_nil hfirst] at hl
        rcases List.mem_append.1 hl with hl | hl
        · exact h.not_startsTag l hl
        · rw [List.mem_singleton.1 hl]
          exact opening?_eq_none_iff.1 hopen

/-- Lines that are grouped into tags make well-formed tags. -/
theorem wellFormed_of_mem_group (htag : tag.WellFormed) {content : List (List Char)}
    (hcontent : ∀ line ∈ content, IsTrimmed line ∧ '\n' ∉ line) :
    ∀ found ∈ group tag content, found.WellFormed := by
  induction content generalizing tag with
  | nil =>
    intro found hfound
    rw [group, List.mem_singleton] at hfound
    exact hfound ▸ htag
  | cons line content ih =>
    obtain ⟨hline, hbreak⟩ := hcontent line List.mem_cons_self
    have hrest : ∀ l ∈ content, IsTrimmed l ∧ '\n' ∉ l :=
      fun l hl => hcontent l (List.mem_cons_of_mem _ hl)
    intro found hfound
    rw [group] at hfound
    cases hopen : opening? line with
    | none =>
      rw [hopen] at hfound
      exact ih (htag.extend hline hbreak hopen) hrest found hfound
    | some next =>
      rw [hopen] at hfound
      rcases List.mem_cons.1 hfound with rfl | hfound
      · exact htag
      · exact ih (wellFormed_of_opening? hopen hbreak) hrest found hfound

end WellFormed

end SourceAtlas.DocTag
