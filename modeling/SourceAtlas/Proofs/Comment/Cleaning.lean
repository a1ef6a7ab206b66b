import Mathlib.Data.List.ReduceOption
import SourceAtlas.Inventory.Description
import SourceAtlas.Proofs.DocComment.Printing

/-!
# Cleaned comments

Cleaning a comment takes off delimiters and markers as often as they stand at an end, so it has to be
shown that it takes off no more than what was put there. A `block` of rows is the usual way to write a
text as a comment, each line behind its margin and with blank rows wherever they please. Its lines come
back as they were, also those that start with stars or slashes or end like a comment, because the margin
and the delimiters stand on lines of their own (`clean_block`). A line comment has nothing behind its
text that could protect the end, and gives its text back unless that ends like a block comment
(`clean_lineComment`).

Whatever is cleaned, the lines that are left are lines of text (`isLine_of_mem_lines_clean`), and so are
the lines of a file's description, which joins cleaned comments (`isLine_of_mem_lines_description`).
-/

namespace SourceAtlas.Comment

open Text DocComment

/-- Whether a text can be a line of a cleaned comment: it is not empty, it has no line break, and no
blanks at its ends. -/
def IsLine (line : List Char) : Prop := line ≠ [] ∧ '\n' ∉ line ∧ IsTrimmed line

instance : DecidablePred IsLine := fun line =>
  inferInstanceAs (Decidable (line ≠ [] ∧ '\n' ∉ line ∧ IsTrimmed line))

/-- A row of a block comment: a line of text behind its margin, or a blank row. -/
def row : Option (List Char) → List Char
  | some line => margin ++ line
  | none => [' ', '*']

/-- The block comment with the given opening and rows. -/
def block (start : List Char) (rows : List (Option (List Char))) : List Char :=
  unlines ([start] ++ rows.map row ++ [' ' :: closing])

/-- The lines that are left of a comment. -/
def cleanLines (raw : List Char) : List (List Char) :=
  ((bodyLines raw).map cleanLine).filter fun line => !line.isEmpty

theorem clean_eq_unlines (raw : List Char) : clean raw = unlines (cleanLines raw) := rfl

/-! ### Rows -/

theorem cleanLine_of_not_marked {line : List Char} (h : ¬ lineMarker <+: trim line) :
    cleanLine line = trim ((trim line).dropWhile (· = '*')) := by
  rw [cleanLine, dropPrefixes_eq_self h]

theorem cleanLine_row_none : cleanLine (row none) = [] := cleanLine_of_not_marked (by decide)

/-- The margin is taken off and nothing else, whatever the line starts with. -/
theorem cleanLine_row_some {line : List Char} (h : IsLine line) :
    cleanLine (row (some line)) = line := by
  obtain ⟨hne, -, htrimmed⟩ := h
  have htrim : trim (row (some line)) = '*' :: ' ' :: line :=
    trim_space (isTrimmed_cons_append [' '] (by decide) hne htrimmed.2)
  have hmarker : ¬ lineMarker <+: trim (row (some line)) := by simp [htrim, lineMarker]
  rw [cleanLine_of_not_marked hmarker, htrim]
  exact trim_space htrimmed

theorem newLine_notMem_row {found : Option (List Char)} (h : ∀ line ∈ found, IsLine line) :
    '\n' ∉ row found := by
  cases found with
  | none => decide
  | some line => simpa [row, margin] using (h line rfl).2.1

/-- The lines of text among the rows are left. -/
theorem filter_cleanLine_rows {rows : List (Option (List Char))}
    (h : ∀ line ∈ rows.reduceOption, IsLine line) :
    ((rows.map row).map cleanLine).filter (fun line => !line.isEmpty) = rows.reduceOption := by
  induction rows with
  | nil => rfl
  | cons found rows ih =>
    rw [List.map_cons, List.map_cons]
    cases found with
    | none =>
      rw [List.reduceOption_cons_of_none] at h ⊢
      rw [cleanLine_row_none, List.filter_cons_of_neg (by decide), ih h]
    | some line =>
      rw [List.reduceOption_cons_of_some] at h ⊢
      have hline := h line List.mem_cons_self
      rw [cleanLine_row_some hline, List.filter_cons_of_pos (by simpa using hline.1),
        ih fun other hother => h other (List.mem_cons_of_mem _ hother)]

/-! ### Delimiters -/

/-- What stands between the delimiters of a block: a line break, the rows, and a last blank line. -/
def blockBody (rows : List (Option (List Char))) : List Char :=
  unlines ([[]] ++ rows.map row ++ [[' ']])

theorem block_eq (start : List Char) (rows : List (Option (List Char))) :
    block start rows = start ++ (blockBody rows ++ closing) :=
  unlines_enclosed start [' '] closing _

theorem blockBody_eq_cons (rows : List (Option (List Char))) :
    ∃ rest, blockBody rows = '\n' :: rest := by
  cases rows with
  | nil => exact ⟨_, rfl⟩
  | cons found rows => exact ⟨_, rfl⟩

theorem blockBody_eq_concat (rows : List (Option (List Char))) :
    ∃ rest, blockBody rows = rest ++ [' '] :=
  ⟨_, unlines_concat_append ([[]] ++ rows.map row) [] [' ']⟩

/-- A block opens once and closes once. -/
theorem bodyLines_block {start : List Char} (hstart : start = docOpening ∨ start = opening)
    (rows : List (Option (List Char))) : bodyLines (block start rows) = lines (blockBody rows) := by
  obtain ⟨rest, hrest⟩ := blockBody_eq_cons rows
  obtain ⟨before, hbefore⟩ := blockBody_eq_concat rows
  have hclosing : dropSuffixes closing (blockBody rows ++ closing) = blockBody rows := by
    refine dropSuffixes_append (by decide) fun hsuffix => ?_
    rw [hbefore] at hsuffix
    have hlast := hsuffix.getLast (by decide)
    simp [closing] at hlast
  have hnone : ¬ opening <+: blockBody rows ++ closing := by simp [opening, hrest]
  have hopened : dropPrefixes opening (dropPrefixes docOpening (start ++ (blockBody rows ++ closing))) =
      blockBody rows ++ closing := by
    rcases hstart with rfl | rfl
    · have hdoc : ¬ docOpening <+: blockBody rows ++ closing := by simp [docOpening, hrest]
      rw [dropPrefixes_append (by decide) hdoc, dropPrefixes_eq_self hnone]
    · have hdoc : ¬ docOpening <+: opening ++ (blockBody rows ++ closing) := by
        simp [docOpening, opening, hrest]
      rw [dropPrefixes_eq_self hdoc, dropPrefixes_append (by decide) hnone]
  have htrim : trim (start ++ (blockBody rows ++ closing)) = start ++ (blockBody rows ++ closing) := by
    rcases hstart with rfl | rfl
    · exact (isTrimmed_cons_append (['*', '*'] ++ blockBody rows) (by decide) (by decide) rfl).trim_eq
    · exact (isTrimmed_cons_append (['*'] ++ blockBody rows) (by decide) (by decide) rfl).trim_eq
  rw [bodyLines, block_eq, htrim, hopened, hclosing]

theorem lines_blockBody {rows : List (Option (List Char))}
    (h : ∀ line ∈ rows.reduceOption, IsLine line) :
    lines (blockBody rows) = [[]] ++ rows.map row ++ [[' ']] := by
  have hrows : ∀ line ∈ rows.map row, '\n' ∉ line := by
    intro line hline
    obtain ⟨found, hfound, rfl⟩ := List.mem_map.1 hline
    refine newLine_notMem_row fun text htext => h text ?_
    rw [List.reduceOption_mem_iff, ← Option.mem_def.1 htext]
    exact hfound
  refine List.splitOn_intercalate '\n' (fun line hline => ?_) (by simp)
  rcases List.mem_append.1 hline with hline | hline
  · rcases List.mem_append.1 hline with hline | hline
    · rw [List.mem_singleton.1 hline]
      decide
    · exact hrows line hline
  · rw [List.mem_singleton.1 hline]
    decide

/-- **A block of rows is cleaned to its lines of text.** -/
theorem clean_block {start : List Char} (hstart : start = docOpening ∨ start = opening)
    {rows : List (Option (List Char))} (h : ∀ line ∈ rows.reduceOption, IsLine line) :
    clean (block start rows) = unlines rows.reduceOption := by
  have hfirst : cleanLine [] = [] := cleanLine_of_not_marked (by decide)
  have hlast : cleanLine [' '] = [] := cleanLine_of_not_marked (by decide)
  have hlines : cleanLines (block start rows) = rows.reduceOption := by
    rw [cleanLines, bodyLines_block hstart, lines_blockBody h, List.map_append, List.map_append,
      List.filter_append, List.filter_append, filter_cleanLine_rows h, List.map_singleton,
      List.map_singleton, hfirst, hlast]
    simp
  rw [clean_eq_unlines, hlines]

/-- **A line comment is cleaned to its text, unless that ends like a block comment.** -/
theorem clean_lineComment {line : List Char} (h : IsLine line) (hend : ¬ closing <:+ line) :
    clean (lineMarker ++ ' ' :: line) = line := by
  obtain ⟨hne, hbreak, htrimmed⟩ := h
  have htrim : trim (lineMarker ++ ' ' :: line) = lineMarker ++ ' ' :: line :=
    (isTrimmed_cons_append ['/', ' '] (by decide) hne htrimmed.2).trim_eq
  have hclosing : ¬ closing <:+ lineMarker ++ ' ' :: line := by
    simpa [closing, lineMarker, List.suffix_cons_iff] using hend
  have hdoc : ¬ docOpening <+: lineMarker ++ ' ' :: line := by simp [docOpening, lineMarker]
  have hopening : ¬ opening <+: lineMarker ++ ' ' :: line := by simp [opening, lineMarker]
  have hlines : bodyLines (lineMarker ++ ' ' :: line) = [lineMarker ++ ' ' :: line] := by
    rw [bodyLines, htrim, dropPrefixes_eq_self hdoc, dropPrefixes_eq_self hopening,
      dropSuffixes_eq_self hclosing]
    exact List.splitOn_eq_singleton (by simpa [lineMarker] using hbreak)
  have hline : cleanLine (lineMarker ++ ' ' :: line) = line := by
    have hmarker : ¬ lineMarker <+: ' ' :: line := by simp [lineMarker]
    rw [cleanLine, htrim, dropPrefixes_append (by decide) hmarker]
    exact trim_space htrimmed
  rw [clean_eq_unlines, cleanLines, hlines, List.map_singleton, hline,
    List.filter_cons_of_pos (by simpa using hne)]
  exact unlines_singleton line

/-! ### What is left of any comment -/

theorem mem_of_mem_cleanLine {line : List Char} {c : Char} (h : c ∈ cleanLine line) : c ∈ line := by
  have hstars := (List.dropWhile_suffix _).subset (mem_of_mem_stripEnds h)
  have hmarkers := (dropPrefixes_suffix lineMarker (trim line)).subset hstars
  exact mem_of_mem_stripEnds hmarkers

theorem isLine_of_mem_cleanLines {raw line : List Char} (h : line ∈ cleanLines raw) : IsLine line := by
  obtain ⟨hmem, hne⟩ := List.mem_filter.1 h
  obtain ⟨written, hwritten, rfl⟩ := List.mem_map.1 hmem
  have hbreak : '\n' ∉ cleanLine written := fun hmem =>
    notMem_of_mem_splitOn hwritten (mem_of_mem_cleanLine hmem)
  exact ⟨by simpa using hne, hbreak, isTrimmed_trim _⟩

/-- The lines of a cleaned comment are lines of text, unless nothing is left. -/
theorem isLine_of_mem_lines_clean {raw : List Char} (hne : clean raw ≠ []) {line : List Char}
    (h : line ∈ lines (clean raw)) : IsLine line := by
  have hsome : cleanLines raw ≠ [] := by
    intro hnone
    rw [clean_eq_unlines, hnone] at hne
    exact hne rfl
  have hlines : lines (clean raw) = cleanLines raw :=
    List.splitOn_intercalate '\n' (fun part hpart => (isLine_of_mem_cleanLines hpart).2.1) hsome
  rw [hlines] at h
  exact isLine_of_mem_cleanLines h

theorem clean_of_mem_descriptionParts {comments : List (List Char)} {part : List Char}
    (h : part ∈ descriptionParts comments) : part ≠ [] ∧ ∃ raw, part = clean raw := by
  obtain ⟨hmem, hne⟩ := List.mem_filter.1 h
  obtain ⟨raw, -, hraw⟩ := List.mem_map.1 hmem
  exact ⟨by simpa using hne, raw, hraw.symm⟩

/-- The lines of a description are lines of text. -/
theorem isLine_of_mem_lines_description {items : List Syntax.Item} {text : List Char}
    (htext : fileDescription? items = some text) {line : List Char} (h : line ∈ lines text) :
    IsLine line := by
  obtain ⟨comments, -, hparts⟩ := Option.bind_eq_some_iff.1 htext
  split at hparts
  next => cases hparts
  next hne =>
    obtain rfl := Option.some.inj hparts
    rw [lines, unlines, splitOn_intercalate_eq_flatMap hne] at h
    obtain ⟨part, hpart, hline⟩ := List.mem_flatMap.1 h
    obtain ⟨hpart, raw, rfl⟩ := clean_of_mem_descriptionParts hpart
    exact isLine_of_mem_lines_clean hpart hline

/-- **Cleaning a comment recovers its text.** The lines of a block, with blank rows wherever they
please, are left as they were, and so is the line of a line comment unless it ends like a block comment.
What is left of any comment consists of lines of text, or is nothing. So a file's description is never
empty and has no blank line. -/
theorem clean_recovers_text :
    (∀ rows : List (Option (List Char)), (∀ line ∈ rows.reduceOption, IsLine line) →
      clean (block docOpening rows) = unlines rows.reduceOption ∧
        clean (block opening rows) = unlines rows.reduceOption) ∧
      (∀ line, IsLine line → ¬ closing <:+ line → clean (lineMarker ++ ' ' :: line) = line) ∧
      (∀ raw, clean raw ≠ [] → ∀ line ∈ lines (clean raw), IsLine line) ∧
      ∀ items text, fileDescription? items = some text →
        text ≠ [] ∧ ∀ line ∈ lines text, IsLine line := by
  refine ⟨fun rows h => ⟨clean_block (.inl rfl) h, clean_block (.inr rfl) h⟩,
    fun line h hend => clean_lineComment h hend, fun raw hne line h => isLine_of_mem_lines_clean hne h,
    fun items text htext => ⟨?_, fun line h => isLine_of_mem_lines_description htext h⟩⟩
  rintro rfl
  -- an empty text would have an empty line
  exact (isLine_of_mem_lines_description htext (List.mem_singleton.2 rfl)).1 rfl

/-- Lines that start with markers or end like a comment, between blank rows. -/
def awkwardRows : List (Option (List Char)) :=
  [none, some "* starred".toList, some "// slashed".toList, none, none, some "closed */".toList,
    some "/".toList]

theorem clean_awkwardRows :
    clean (block docOpening awkwardRows) = "* starred\n// slashed\nclosed */\n/".toList ∧
      clean (block opening awkwardRows) = "* starred\n// slashed\nclosed */\n/".toList ∧
      clean "// // twice *".toList = "// twice *".toList ∧
      ∀ line ∈ lines (clean (block opening awkwardRows)), IsLine line := by
  obtain ⟨hblock, hline, hlines, -⟩ := clean_recovers_text
  obtain ⟨hdoc, hplain⟩ := hblock awkwardRows (by decide)
  refine ⟨hdoc, hplain, hline "// twice *".toList (by decide) (by decide), hlines _ ?_⟩
  rw [hplain]
  decide

end SourceAtlas.Comment
