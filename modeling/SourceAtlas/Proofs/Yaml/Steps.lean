import SourceAtlas.Proofs.Yaml.Literal

/-!
# Single tokens of a written text

What the scanner does at a scalar, at a key with its colon, at the marks of items, keys and values,
and at an empty collection. Each result says which tokens are added, which blocks are open then, and
where the scanner arrives.
-/

namespace SourceAtlas.Yaml

open Text

/-- A text is written in the first style that is allowed for it. -/
theorem styleOf_cases (s : List Char) :
    (styleOf s = .plain ∧ isTyped s = false ∧ plainAllowed s = true) ∨
      (styleOf s = .singleQuoted ∧ '\n' ∉ s ∧ singleAllowed s = true) ∨
      (styleOf s = .literal ∧ '\n' ∈ s ∧ literalAllowed s = true) ∨
      styleOf s = .doubleQuoted := by
  rw [styleOf]
  split
  next hcontains =>
    split
    next h => exact .inr (.inr (.inl ⟨rfl, by simpa using hcontains, h⟩))
    next => exact .inr (.inr (.inr rfl))
  next hcontains =>
    split
    next h => exact .inl ⟨rfl, by simpa using h⟩
    next =>
      split
      next h => exact .inr (.inl ⟨rfl, by simpa using hcontains, h⟩)
      next => exact .inr (.inr (.inr rfl))

theorem literal_of_literalAllowed {s : List Char} (h : literalAllowed s = true) :
    s ≠ [] ∧ ∀ c ∈ s, isPrintable c = true := by
  simp only [literalAllowed, hasUnprintable, Bool.and_eq_true, Bool.not_eq_true',
    List.any_eq_false] at h
  exact ⟨by simpa using h.1.1.1, fun c hc => by simpa using h.2 c hc⟩

theorem doubleQuoted_append (s suffix : List Char) :
    doubleQuoted s ++ suffix = '"' :: (s.flatMap escapeChar ++ '"' :: suffix) := by
  simp [doubleQuoted]

theorem ne_nil_of_isTyped {s : List Char} (h : isTyped s = false) : s ≠ [] := by
  rintro rfl
  cases h

namespace Scanner

/-! ### Scalars -/

/-- Where a key may have started in front of a token. -/
def keyFor (position : Position) (tokens : List Token) (keyAllowed : Bool) (indent : Int) :
    Option KeyStart :=
  if keyAllowed then some ⟨tokens.length, position, decide (indent = (position.column : Int))⟩
  else none

theorem saveKey?_blockAt (rest : List Char) (p : Position) (tokens : List Token) (allowed : Bool)
    (indent : Int) (indents : List Int) :
    (blockAt rest p tokens allowed indent indents).saveKey? =
      some { blockAt rest p tokens allowed indent indents with
        keyStart := keyFor p tokens allowed indent } := by
  cases allowed <;> rfl

/-- A text that may be written plainly does not look like the mark of a document. -/
theorem atDocumentMark_append {w suffix : List Char}
    (hdash : "---".toList.isPrefixOf w = false) (hdot : "...".toList.isPrefixOf w = false)
    (hsuffix : ∀ c ∈ suffix.head?, c ≠ '-' ∧ c ≠ '.') : atDocumentMark (w ++ suffix) = false := by
  rw [← Bool.not_eq_true]
  intro hmark
  obtain ⟨mark, rest, hm, hrest⟩ :
      ∃ mark rest, (mark = '-' ∨ mark = '.') ∧ w ++ suffix = [mark, mark, mark] ++ rest := by
    unfold atDocumentMark at hmark
    split at hmark
    next cs rest heq => exact ⟨'-', rest, .inl rfl, heq⟩
    next cs rest heq => exact ⟨'.', rest, .inr rfl, heq⟩
    next => cases hmark
  -- all three characters belong to the text, for what follows it does not start with one of them
  have hprefix : List.isPrefixOf [mark, mark, mark] w = true := by
    rcases List.append_eq_append_iff.1 hrest with ⟨more, hmarks, hsplit⟩ | ⟨more, hw, -⟩
    · cases more with
      | nil =>
        rw [List.append_nil] at hmarks
        rw [← hmarks]
        rcases hm with rfl | rfl <;> rfl
      | cons d more =>
        have hd : d = mark := by
          have hmem : d ∈ [mark, mark, mark] := by simp [hmarks]
          simpa using hmem
        obtain ⟨hne, hne'⟩ := hsuffix d (by rw [hsplit]; rfl)
        rcases hm with rfl | rfl
        · exact absurd hd hne
        · exact absurd hd hne'
    · rw [hw]
      rcases hm with rfl | rfl <;> rfl
  rcases hm with rfl | rfl
  · rw [show [('-' : Char), '-', '-'] = "---".toList from rfl, hdash] at hprefix
    cases hprefix
  · rw [show [('.' : Char), '.', '.'] = "...".toList from rfl, hdot] at hprefix
    cases hprefix

/-- A text that may be written plainly is read as a plain scalar. -/
theorem token?_plain {s : Scanner} {w suffix left : List Char} {broken : Bool} {indent : Int}
    (hflow : s.outerStarts = []) (hrest : s.rest = w ++ suffix) (hw : plainAllowed w = true)
    (hne : w ≠ []) (hend : PlainEnd indent suffix left broken) : s.token? = s.plain? := by
  have hpart := plainPart_of_plainAllowed hw hne
  simp only [plainAllowed, Bool.and_eq_true, Bool.not_eq_true', startsMarked,
    Bool.or_eq_false_iff] at hw
  obtain ⟨⟨-, ⟨hdash, hdot⟩, hmarked⟩, -⟩ := hw
  have hdocument : atDocumentMark (w ++ suffix) = false := by
    refine atDocumentMark_append hdash hdot ?_
    cases hend <;> rintro c ⟨⟩ <;> decide
  obtain ⟨c, w, rfl⟩ := List.exists_cons_of_ne_nil hne
  obtain ⟨hindicator, hmarked⟩ := Bool.or_eq_false_iff.1 hmarked
  have hblank : isBlank c = false := (hpart.head c rfl).1
  have hnext : c = '-' ∨ c = '?' ∨ c = ':' → blankNext (w ++ suffix) = false := by
    intro hc
    have hmark : (c == '?' || c == ':' || c == '-') = true := by
      simp only [Bool.or_eq_true, beq_iff_eq]
      tauto
    rw [hmark, Bool.true_and] at hmarked
    exact blankNext_append hmarked suffix
  have hflow' : s.inFlow = false := by rw [inFlow, hflow]; rfl
  rw [List.cons_append] at hrest hdocument
  generalize w ++ suffix = rest at hrest hdocument hnext
  simp only [isIndicator, String.reduceToList, List.contains_eq_mem, List.mem_cons,
    List.not_mem_nil, or_false, Bool.decide_or, Bool.or_eq_false_iff,
    decide_eq_false_iff_not] at hindicator
  have hstart : startsPlain false (c :: rest) = true := by
    by_cases hc : c = '-' ∨ c = '?' ∨ c = ':'
    · obtain ⟨d, rest, rfl⟩ : ∃ d more, rest = d :: more := by
        cases rest with
        | nil => cases hnext hc
        | cons d rest => exact ⟨d, rest, rfl⟩
      have hd : isBlank d = false := hnext hc
      have hgap : isGap d = false := (Bool.or_eq_false_iff.1 hd).1
      rcases hc with rfl | rfl | rfl <;> simp [startsPlain, blankNext, hd, hgap]
    · simp only [not_or] at hc
      simp [startsPlain, hblank, hindicator, hc]
  have hmark : ∀ d, d = '-' ∨ d = '?' ∨ d = ':' → ¬ (c = d ∧ blankNext rest = true) := by
    rintro d hd ⟨rfl, hblank⟩
    rw [hnext hd] at hblank
    cases hblank
  unfold token?
  simp only [hrest, hdocument, hflow', hstart, hindicator, hmark '-' (by simp), hmark '?' (by simp),
    hmark ':' (by simp), Bool.and_eq_true, beq_iff_eq, and_false, false_and, Bool.and_false,
    Bool.false_eq_true, if_false, if_true, Bool.false_or, decide_eq_true_eq]

/-! ### Tokens that a mark tells -/

theorem token?_bar {s : Scanner} {rest : List Char} (hflow : s.outerStarts = [])
    (hrest : s.rest = '|' :: rest) : s.token? = s.block? .literal := by
  simp [token?, hrest, inFlow, hflow]

theorem token?_singleQuote {s : Scanner} {rest : List Char} (hrest : s.rest = '\'' :: rest) :
    s.token? = s.scalar? .singleQuoted (quotedScalar? '\'' rest) := by
  simp [token?, hrest]

theorem token?_doubleQuote {s : Scanner} {rest : List Char} (hrest : s.rest = '"' :: rest) :
    s.token? = s.scalar? .doubleQuoted (quotedScalar? '"' rest) := by
  simp [token?, hrest]

section Scalar

variable (p : Position) (tokens : List Token) (allowed : Bool) (indent : Int) (indents : List Int)

theorem plain?_blockAt {rest left text : List Char} {broken : Bool} (used : List Char)
    (hread : plainScalar? false (indent + 1) rest = some ⟨text, left, broken⟩)
    (hused : rest = used ++ left) :
    (blockAt rest p tokens allowed indent indents).plain? = some
      { blockAt left (p.past used) (.scalar .plain text :: tokens) broken indent indents with
        keyStart := keyFor p tokens allowed indent } := by
  rw [plain?, saveKey?_blockAt]
  show ((plainScalar? false (indent + 1) rest).bind fun found => some _) = _
  rw [hread, Option.bind_some, moveTo_append used hused]
  rfl

theorem scalar?_blockAt {rest left : List Char} (used : List Char) (hused : rest = used ++ left)
    (style : ScalarStyle) (text : List Char) :
    (blockAt rest p tokens allowed indent indents).scalar? style (some (text, left)) = some
      { blockAt left (p.past used) (.scalar style text :: tokens) false indent indents with
        keyStart := keyFor p tokens allowed indent } := by
  rw [scalar?, saveKey?_blockAt]
  show some _ = _
  rw [moveTo_append used hused]
  rfl

theorem block?_blockAt {rest left text : List Char} (used : List Char)
    (hread : blockScalar? false indent (rest.drop 1) = some (text, left))
    (hused : rest = used ++ left) :
    (blockAt rest p tokens allowed indent indents).block? .literal =
      some (blockAt left (p.past used) (.scalar .literal text :: tokens) true indent indents) := by
  rw [block?]
  show ((blockScalar? false indent (rest.drop 1)).bind fun found => some _) = _
  rw [hread, Option.bind_some, moveTo_append used hused]
  rfl

end Scalar

/-! ### Values on one line -/

/-- After a token that is followed by a line break the scanner arrives on the next line. -/
theorem step_line {a : Scanner} {m : Nat} {content : List Char} (hready : Ready content)
    {q : Position} {tokens : List Token} {allowed : Bool} {indent : Int} {indents : List Int}
    {keyStart : Option KeyStart}
    (htoken : a.token? = some
      { blockAt ('\n' :: (pad m ++ content)) q tokens allowed indent indents with keyStart })
    (hkey : ∀ start ∈ keyStart, start.required = false ∧ start.position.line ≤ q.line)
    (hlength : m + content.length + 1 < a.rest.length) :
    Step a ((blockAt content ⟨q.line + 1, m, q.index + 1 + m⟩ tokens true indent indents).closeBlocks
      m) := by
  refine ⟨_, htoken, ?_, arrive?_line rfl hready rfl hkey⟩
  simpa [blockAt, pad] using hlength

/-- After a token that ends on a new line the scanner has arrived there. -/
theorem step_here {a : Scanner} {content : List Char} (hready : Ready content)
    {q : Position} {tokens : List Token} {indent : Int} {indents : List Int}
    {keyStart : Option KeyStart}
    (htoken : a.token? = some { blockAt content q tokens true indent indents with keyStart })
    (hkey : ∀ start ∈ keyStart, start.required = false ∧ start.position.line < q.line)
    (hlength : content.length < a.rest.length) :
    Step a ((blockAt content q tokens true indent indents).closeBlocks q.column) :=
  ⟨_, htoken, hlength, arrive?_here hready rfl rfl hkey⟩

section Value

variable {c m : Nat} (hm : m ≤ c) {content : List Char} (hready : Ready content) (p : Position)
  (tokens : List Token) {allowed : Bool} (hcolumn : allowed = true → (c : Int) ≠ p.column)
  (indents : List Int)

include hcolumn in
theorem keyFor_spent : ∀ start ∈ keyFor p tokens allowed c,
    start.required = false ∧ start.position = p := by
  intro start hstart
  rw [keyFor] at hstart
  split at hstart
  next h =>
    cases hstart
    exact ⟨decide_eq_false (hcolumn h), rfl⟩
  next => cases hstart

include hready hcolumn

include hm in
theorem step_plain {w : List Char} (hw : plainAllowed w = true) (hne : w ≠ []) :
    ∃ q, q.column = m ∧
      Step (blockAt (w ++ '\n' :: (pad m ++ content)) p tokens allowed c indents)
        ((blockAt content q (.scalar .plain w :: tokens) true c indents).closeBlocks m) := by
  have hend : PlainEnd ((c : Int) + 1) ('\n' :: (pad m ++ content)) content true :=
    .line (by omega) hready
  have htoken := token?_plain (s := blockAt (w ++ '\n' :: (pad m ++ content)) p tokens allowed c
    indents) rfl rfl hw hne hend
  rw [plain?_blockAt p tokens allowed c indents (w ++ '\n' :: pad m)
    (plainScalar?_append hw hne hend) (by simp)] at htoken
  obtain ⟨hline, hq⟩ := Position.past_append_break (b := '\n') rfl p w m
  have hstep := step_here hready htoken (fun start hstart => ?_) ?_
  · rw [hq] at hstep
    exact ⟨_, hq, hstep⟩
  · obtain ⟨hrequired, hposition⟩ := keyFor_spent p tokens hcolumn start hstart
    exact ⟨hrequired, by rwa [hposition]⟩
  · simp [blockAt]
    omega

/-- A scalar between quotes, given how its token is read. -/
theorem step_quoted {text s : List Char} {style : ScalarStyle}
    (htoken : (blockAt (text ++ '\n' :: (pad m ++ content)) p tokens allowed c indents).token? =
      (blockAt (text ++ '\n' :: (pad m ++ content)) p tokens allowed c indents).scalar? style
        (some (s, '\n' :: (pad m ++ content)))) (hne : text ≠ []) :
    ∃ q, q.column = m ∧
      Step (blockAt (text ++ '\n' :: (pad m ++ content)) p tokens allowed c indents)
        ((blockAt content q (.scalar style s :: tokens) true c indents).closeBlocks m) := by
  rw [scalar?_blockAt p tokens allowed c indents text rfl] at htoken
  refine ⟨_, rfl, step_line hready htoken (fun start hstart => ?_) ?_⟩
  · obtain ⟨hrequired, hposition⟩ := keyFor_spent p tokens hcolumn start hstart
    exact ⟨hrequired, by rw [hposition]; exact p.line_le_past text⟩
  · have := List.length_pos_iff.2 hne
    simp [blockAt, pad]
    omega

omit hcolumn in
include hm in
theorem step_literal {s : List Char} (hs : s ≠ []) (hprintable : ∀ d ∈ s, isPrintable d = true) :
    ∃ q, q.column = m ∧
      Step (blockAt (literalBlock (c + 2) s ++ (pad m ++ content)) p tokens allowed c indents)
        ((blockAt content q (.scalar .literal s :: tokens) true c indents).closeBlocks m) := by
  obtain ⟨front, b, hb, hblock⟩ := literalBlock_eq (c + 2) hs
  have hread : blockScalar? false c (('|' :: (front ++ [b]) ++ (pad m ++ content)).drop 1) =
      some (s, content) := by
    have hblock' := blockScalar?_literalBlock hs hprintable hm hready
    rwa [hblock] at hblock'
  rw [hblock]
  have htoken := token?_bar (s := blockAt ('|' :: (front ++ [b]) ++ (pad m ++ content)) p tokens
    allowed c indents) rfl rfl
  rw [block?_blockAt p tokens allowed c indents ('|' :: front ++ b :: pad m) hread (by simp)] at htoken
  obtain ⟨hline, hq⟩ := Position.past_append_break hb p ('|' :: front) m
  generalize p.past ('|' :: front ++ b :: pad m) = q at htoken hline hq
  have hstep := step_here hready htoken (by rintro start ⟨⟩) ?_
  · rw [hq] at hstep
    exact ⟨_, hq, hstep⟩
  · simp [blockAt]
    omega

include hm in
/-- A text is read back as a value, and the scanner arrives on the line after it. -/
theorem step_scalar (s : List Char) :
    ∃ q, q.column = m ∧
      Step (blockAt (scalar (c + 2) s ++ (pad m ++ content)) p tokens allowed c indents)
        ((blockAt content q (.scalar (styleOf s) s :: tokens) true c indents).closeBlocks m) := by
  have hsplit : ∀ text : List Char, text ++ ['\n'] ++ (pad m ++ content) =
      text ++ '\n' :: (pad m ++ content) := by
    simp
  rcases styleOf_cases s with ⟨hstyle, htyped, hplain⟩ | ⟨hstyle, hline, hsingle⟩ |
    ⟨hstyle, -, hliteral⟩ | hstyle
  · rw [scalar, hstyle, hsplit]
    exact step_plain hm hready p tokens hcolumn indents hplain (ne_nil_of_isTyped htyped)
  · have hread := @quotedScalar?_singleQuoted s ('\n' :: (pad m ++ content)) hsingle hline (c + 2)
      (.inr (by omega)) (by simp)
    rw [scalar, hstyle, hsplit]
    refine step_quoted hready p tokens hcolumn indents ?_ (by simp [singleQuoted])
    rw [singleQuoted_append, token?_singleQuote rfl, hread]
  · obtain ⟨hne, hprintable⟩ := literal_of_literalAllowed hliteral
    rw [scalar, hstyle]
    exact step_literal hm hready p tokens indents hne hprintable
  · have hread := quotedScalar?_doubleQuoted s ('\n' :: (pad m ++ content))
    rw [scalar, hstyle, hsplit]
    refine step_quoted hready p tokens hcolumn indents ?_ (by simp [doubleQuoted])
    rw [doubleQuoted_append, token?_doubleQuote rfl, hread]

end Value

/-! ### Keys -/

theorem isBreak_of_isVisible {c : Char} (h : isVisible c = true) : isBreak c = false := by
  rw [← Bool.not_eq_true]
  intro hbreak
  simp only [isBreak, Bool.or_eq_true, beq_iff_eq] at hbreak
  rcases hbreak with (((rfl | rfl) | rfl) | rfl) | rfl <;> cases h

theorem isBreak_escapeChar {c d : Char} (hd : d ∈ escapeChar c) : isBreak d = false := by
  rcases escapeChar_cases c with ⟨hself, -, hbreak⟩ | ⟨ds, hds, hvisible, -⟩
  · rw [hself, List.mem_singleton] at hd
    rw [hd, hbreak]
  · rw [hds] at hd
    rcases List.mem_cons.1 hd with rfl | hd
    · rfl
    · exact isBreak_of_isVisible (List.all_eq_true.1 hvisible d hd)

theorem length_escapeChar (c : Char) : (escapeChar c).length ≤ 4 * (String.utf8EncodeChar c).length := by
  rw [String.length_utf8EncodeChar]
  rcases escapeChar_cases c with ⟨hself, -⟩ | ⟨ds, hds, -, hlength⟩
  · have := c.utf8Size_pos
    rw [hself, List.length_singleton]
    omega
  · rw [hds, List.length_cons]
    omega

theorem length_escapeQuote (c : Char) :
    (escapeQuote c).length ≤ 4 * (String.utf8EncodeChar c).length := by
  have := c.utf8Size_pos
  rw [String.length_utf8EncodeChar, escapeQuote]
  split
  · simp only [List.length_cons, List.length_nil]
    omega
  · simp only [List.length_cons, List.length_nil]
    omega

theorem length_flatMap_le {f : Char → List Char}
    (h : ∀ c, (f c).length ≤ 4 * (String.utf8EncodeChar c).length) (s : List Char) :
    (s.flatMap f).length ≤ 4 * (s.flatMap String.utf8EncodeChar).length := by
  induction s with
  | nil => simp
  | cons c s ih =>
    have hc := h c
    simp only [List.flatMap_cons, List.length_append]
    omega

/-- Between two quotes on one line. -/
theorem quotedKey_spec {f : Char → List Char} {key : List Char} {quote : Char}
    (hquote : isBreak quote = false)
    (hlength : ∀ c, (f c).length ≤ 4 * (String.utf8EncodeChar c).length)
    (hbreak : ∀ c ∈ key, ∀ d ∈ f c, isBreak d = false)
    (hkey : (key.flatMap String.utf8EncodeChar).length ≤ 128) :
    (∀ c ∈ quote :: (key.flatMap f ++ [quote]), isBreak c = false) ∧
      (quote :: (key.flatMap f ++ [quote])).length ≤ 1024 ∧
      0 < (quote :: (key.flatMap f ++ [quote])).length := by
  refine ⟨?_, ?_, Nat.succ_pos _⟩
  · intro c hc
    simp only [List.mem_cons, List.mem_append, List.mem_flatMap, List.not_mem_nil, or_false] at hc
    rcases hc with rfl | ⟨d, hd, hc⟩ | rfl
    · exact hquote
    · exact hbreak d hd c hc
    · exact hquote
  · have := length_flatMap_le hlength key
    simp only [List.length_cons, List.length_append, List.length_nil]
    omega

/-- A key that fits on the line of its value stays on one line and has the length of a key. -/
theorem simpleKey_spec {key : List Char} (h : isSimpleKey key = true) :
    (∀ c ∈ simpleKey key, isBreak c = false) ∧ (simpleKey key).length ≤ 1024 ∧
      0 < (simpleKey key).length := by
  simp only [isSimpleKey, Bool.and_eq_true, Bool.not_eq_true', List.any_eq_false,
    Bool.not_eq_true, decide_eq_true_eq] at h
  obtain ⟨hbreak, hsize⟩ := h
  have hbytes : (key.flatMap String.utf8EncodeChar).length ≤ 128 := by
    rw [← String.size_toByteArray, String.toByteArray_ofList, List.utf8Encode,
      List.size_toByteArray] at hsize
    exact hsize
  rcases styleOf_cases key with ⟨hstyle, htyped, -⟩ | ⟨hstyle, -⟩ | ⟨-, hline, -⟩ | hstyle
  · have hself : key.flatMap (fun c => [c]) = key := List.flatMap_singleton' key
    have := length_flatMap_le (f := fun c => [c]) (fun c => by
      have := c.utf8Size_pos
      rw [String.length_utf8EncodeChar, List.length_singleton]
      omega) key
    rw [hself] at this
    rw [simpleKey, hstyle]
    show (∀ c ∈ key, isBreak c = false) ∧ key.length ≤ 1024 ∧ 0 < key.length
    exact ⟨hbreak, by omega, List.length_pos_iff.2 (ne_nil_of_isTyped htyped)⟩
  · have htail := singleTail_word hbreak 0 [] []
    rw [List.append_nil] at htail
    have hquoted := singleQuoted_append 0 key []
    rw [List.append_nil, htail] at hquoted
    rw [simpleKey, hstyle, hquoted]
    exact quotedKey_spec rfl length_escapeQuote
      (fun c hc d hd => isBreak_escapeQuote (s := [c]) (by simpa using hbreak c hc) d
        (by simpa using hd)) hbytes
  · exact absurd (hbreak '\n' hline) (by decide)
  · have hquoted := doubleQuoted_append key []
    rw [List.append_nil] at hquoted
    rw [simpleKey, hstyle, hquoted]
    exact quotedKey_spec rfl length_escapeChar (fun c _ d hd => isBreak_escapeChar hd) hbytes

/-- The tokens with one that opens a block, if a column lies further in than the innermost block. -/
def openTokens (indent column : Int) (start : Token) (tokens : List Token) : List Token :=
  if indent < column then start :: tokens else tokens

/-- The columns of the blocks around a column, if that is a block's. -/
def openIndents (indent column : Int) (indents : List Int) : List Int :=
  if indent < column then indent :: indents else indents

theorem openBlock_eq {s : Scanner} (hflow : s.outerStarts = []) {column : Int}
    (hindent : s.indent ≤ column) {front back : List Token} (htokens : s.tokens = front ++ back)
    (start : Token) :
    s.openBlock column back.length start =
      { s with
        tokens := front ++ openTokens s.indent column start back
        indent := column
        indents := openIndents s.indent column s.indents } := by
  have hflow' : s.inFlow = false := by rw [inFlow, hflow]; rfl
  by_cases h : s.indent < column
  · have hlater : s.tokens.length - back.length = front.length := by simp [htokens]
    simp only [openBlock, insertAt, openTokens, openIndents, h, hflow', hlater, Bool.not_false,
      Bool.true_and, decide_true, if_true]
    rw [htokens, List.take_left, List.drop_left]
  · have heq : column = s.indent := by omega
    simp only [openBlock, openTokens, openIndents, h, hflow', Bool.not_false, Bool.true_and,
      decide_false, Bool.false_eq_true, if_false]
    rw [heq, ← htokens]

/-- The scanner after a scalar that may be a key, which started at a place. -/
def keyAt (rest : List Char) (start position : Position) (token : Token) (tokens : List Token)
    (indent : Int) (indents : List Int) : Scanner :=
  { blockAt rest position (token :: tokens) false indent indents with
    keyStart := keyFor start tokens true indent }

section Key

variable {x : List Char} (hx : blankNext x = true) (p : Position) (tokens : List Token)
  {indent : Int} (indents : List Int)

include hx

/-- The token of a key. -/
theorem token?_simpleKey {key : List Char} (hkey : isSimpleKey key = true) :
    (blockAt (simpleKey key ++ ':' :: x) p tokens true indent indents).token? =
      some (keyAt (':' :: x) p (p.past (simpleKey key)) (.scalar (styleOf key) key) tokens indent
        indents) := by
  have hbreak : ∀ c ∈ key, isBreak c = false := by
    simp only [isSimpleKey, Bool.and_eq_true, Bool.not_eq_true', List.any_eq_false,
      Bool.not_eq_true] at hkey
    exact hkey.1
  rcases styleOf_cases key with ⟨hstyle, htyped, hplain⟩ | ⟨hstyle, hline, hsingle⟩ |
    ⟨-, hline, -⟩ | hstyle
  · have hne := ne_nil_of_isTyped htyped
    have hend : PlainEnd (indent + 1) (':' :: x) (':' :: x) false := .colon hx
    rw [simpleKey, hstyle]
    exact (token?_plain rfl rfl hplain hne hend).trans
      (plain?_blockAt p tokens true indent indents key (plainScalar?_append hplain hne hend) rfl)
  · have hread := @quotedScalar?_singleQuoted key (':' :: x) hsingle hline 0 (.inl hbreak) (by simp)
    rw [simpleKey, hstyle]
    refine Eq.trans ?_ (scalar?_blockAt p tokens true indent indents (singleQuoted 0 key) rfl
      .singleQuoted key)
    rw [singleQuoted_append, token?_singleQuote rfl, hread]
  · exact absurd (hbreak '\n' hline) (by decide)
  · have hread := quotedScalar?_doubleQuoted key (':' :: x)
    rw [simpleKey, hstyle]
    refine Eq.trans ?_ (scalar?_blockAt p tokens true indent indents (doubleQuoted key) rfl
      .doubleQuoted key)
    rw [doubleQuoted_append, token?_doubleQuote rfl, hread]

theorem token?_colon {s : Scanner} (hrest : s.rest = ':' :: x) : s.token? = s.value? := by
  simp [token?, hrest, hx]

omit hx in
/-- The colon after a key tells that it was one. -/
theorem value?_keyAt (hindent : indent ≤ p.column) (q : Position) (token : Token) :
    (keyAt (':' :: x) p q token tokens indent indents).value? =
      some (blockAt x (q.past [':'])
        (.value :: token :: .key :: openTokens indent p.column .blockMappingStart tokens) false
        p.column (openIndents indent p.column indents)) := by
  have hinsert : (keyAt (':' :: x) p q token tokens indent indents).insertAt tokens.length .key =
      { keyAt (':' :: x) p q token tokens indent indents with
        tokens := [token, .key] ++ tokens } := by
    simp [insertAt, keyAt, blockAt]
  have hopen := openBlock_eq (s := { keyAt (':' :: x) p q token tokens indent indents with
    tokens := [token, .key] ++ tokens }) rfl hindent rfl .blockMappingStart
  show some ((moveTo { ((keyAt (':' :: x) p q token tokens indent indents).insertAt tokens.length
    .key).openBlock p.column tokens.length .blockMappingStart with
      keyStart := none, keyAllowed := false } x).emit .value) = _
  rw [hinsert, hopen, moveTo_append [':'] rfl]
  rfl

/-- A key and its colon open the block of the mapping, if it is not open. -/
theorem step_key {key : List Char} (hkey : isSimpleKey key = true) {column : Nat}
    (hcolumn : p.column = column) (hindent : indent ≤ column) :
    ∃ t q, Step (blockAt (simpleKey key ++ ':' :: x) p tokens true indent indents) t ∧
      t.rest = ':' :: x ∧ column ≤ q.column ∧
      t.token? = some (blockAt x q
        (.value :: .scalar (styleOf key) key :: .key ::
          openTokens indent column .blockMappingStart tokens) false column
        (openIndents indent column indents)) := by
  subst hcolumn
  obtain ⟨hbreak, hlength, hpos⟩ := simpleKey_spec hkey
  have hpast := Position.past_of_noBreak hbreak p
  have htoken := @token?_simpleKey x hx p tokens indent indents key hkey
  rw [hpast] at htoken
  generalize hq : (⟨p.line, p.column + (simpleKey key).length, p.index + (simpleKey key).length⟩ :
    Position) = q at htoken
  have harrive : (keyAt (':' :: x) p q (.scalar (styleOf key) key) tokens indent indents).arrive? =
      some (keyAt (':' :: x) p q (.scalar (styleOf key) key) tokens indent indents) := by
    subst hq
    refine arrive?_of_fresh (ready_cons.2 (by decide)) ?_ (by rintro start ⟨⟩) ?_
    · rintro start ⟨⟩
      exact ⟨rfl, Nat.add_le_add_left hlength p.index⟩
    · show indent ≤ ((p.column + (simpleKey key).length : Nat) : Int)
      omega
  refine ⟨_, q.past [':'], ⟨_, htoken, ?_, harrive⟩, rfl, ?_,
    (token?_colon hx rfl).trans (value?_keyAt p tokens indents hindent q _)⟩
  · simpa [keyAt, blockAt] using hpos
  · subst hq
    show p.column ≤ p.column + (simpleKey key).length + 1
    omega

end Key

/-! ### Marks -/

section Mark

variable (rest : List Char) (p : Position) (tokens : List Token) {indent : Int}
  (hindent : indent ≤ p.column) (indents : List Int)

theorem token?_dash {s : Scanner} (hrest : s.rest = '-' :: ' ' :: rest) :
    s.token? = s.blockEntry? := by
  simp [token?, hrest, atDocumentMark, blankNext, isBlank, isGap]

theorem token?_question {s : Scanner} (hrest : s.rest = '?' :: ' ' :: rest) :
    s.token? = s.key? := by
  simp [token?, hrest, blankNext, isBlank, isGap]

include hindent in
theorem openBlock_blockAt (start : Token) :
    (blockAt rest p tokens true indent indents).openBlock p.column tokens.length start =
      blockAt rest p (openTokens indent p.column start tokens) true p.column
        (openIndents indent p.column indents) :=
  @openBlock_eq (blockAt rest p tokens true indent indents) rfl p.column hindent [] tokens rfl start

/-- The mark of an item opens the block of the sequence, if it is not open. -/
theorem token?_item {column : Nat} (hcolumn : p.column = column) (hindent : indent ≤ column) :
    (blockAt ('-' :: ' ' :: rest) p tokens true indent indents).token? =
      some (blockAt (' ' :: rest) (p.past ['-'])
        (.blockEntry :: openTokens indent column .blockSequenceStart tokens) true column
        (openIndents indent column indents)) := by
  subst hcolumn
  rw [token?_dash rest rfl]
  show ((openBlock (blockAt ('-' :: ' ' :: rest) p tokens true indent indents) p.column
    tokens.length .blockSequenceStart).dropKey?).bind
      (fun s => some ((moveTo { s with keyAllowed := true } (s.rest.drop 1)).emit .blockEntry)) = _
  rw [openBlock_blockAt _ p tokens hindent indents]
  show some ((moveTo (blockAt ('-' :: ' ' :: rest) p _ true _ _) (' ' :: rest)).emit _) = _
  rw [moveTo_append ['-'] rfl]
  rfl

/-- The mark of a key that has a line of its own opens the block of the mapping. -/
theorem token?_keyMark {column : Nat} (hcolumn : p.column = column) (hindent : indent ≤ column) :
    (blockAt ('?' :: ' ' :: rest) p tokens true indent indents).token? =
      some (blockAt (' ' :: rest) (p.past ['?'])
        (.key :: openTokens indent column .blockMappingStart tokens) true column
        (openIndents indent column indents)) := by
  subst hcolumn
  rw [token?_question rest rfl]
  show ((openBlock (blockAt ('?' :: ' ' :: rest) p tokens true indent indents) p.column
    tokens.length .blockMappingStart).dropKey?).bind
      (fun s => some ((moveTo { s with keyAllowed := !s.inFlow } (s.rest.drop 1)).emit .key)) = _
  rw [openBlock_blockAt _ p tokens hindent indents]
  show some ((moveTo (blockAt ('?' :: ' ' :: rest) p _ true _ _) (' ' :: rest)).emit _) = _
  rw [moveTo_append ['?'] rfl]
  rfl

/-- The mark of a value that has a line of its own. -/
theorem token?_valueMark {column : Nat} (hcolumn : p.column = column) :
    (blockAt (':' :: ' ' :: rest) p tokens true column indents).token? =
      some (blockAt (' ' :: rest) (p.past [':']) (.value :: tokens) true column indents) := by
  subst hcolumn
  rw [token?_colon rfl rfl]
  have hopen := openBlock_blockAt (':' :: ' ' :: rest) p tokens (Int.le_refl _) indents
    .blockMappingStart
  rw [openTokens, openIndents, if_neg (Int.lt_irrefl _), if_neg (Int.lt_irrefl _)] at hopen
  show some ((moveTo { openBlock (blockAt (':' :: ' ' :: rest) p tokens true p.column indents)
    p.column tokens.length .blockMappingStart with keyAllowed := true } (' ' :: rest)).emit _) = _
  rw [hopen, moveTo_append [':'] rfl]
  rfl

end Mark

/-! ### Empty collections -/

/-- The two marks of a flow collection. -/
structure FlowMarks (first last : Char) (opening closing : Token) : Prop where
  opens : ∀ (s : Scanner) (rest : List Char), s.rest = first :: rest →
    s.token? = s.flowStart? opening
  closes : ∀ (s : Scanner) (rest : List Char), s.rest = last :: rest →
    s.token? = s.flowEnd? closing
  opensReady : ∀ rest, Ready (first :: rest)
  closesReady : ∀ rest, Ready (last :: rest)
  firstBreak : isBreak first = false
  lastBreak : isBreak last = false

theorem flowMarks_sequence : FlowMarks '[' ']' .flowSequenceStart .flowSequenceEnd where
  opens s rest hrest := by simp [token?, hrest]
  closes s rest hrest := by simp [token?, hrest]
  opensReady rest := ready_cons.2 (by decide)
  closesReady rest := ready_cons.2 (by decide)
  firstBreak := rfl
  lastBreak := rfl

theorem flowMarks_mapping : FlowMarks '\x7b' '\x7d' .flowMappingStart .flowMappingEnd where
  opens s rest hrest := by simp [token?, hrest]
  closes s rest hrest := by simp [token?, hrest]
  opensReady rest := ready_cons.2 (by decide)
  closesReady rest := ready_cons.2 (by decide)
  firstBreak := rfl
  lastBreak := rfl

/-- The scanner in a flow collection that stands in a block. -/
def flowAt (rest : List Char) (position : Position) (tokens : List Token)
    (outerStart : Option KeyStart) (indent : Int) (indents : List Int) : Scanner :=
  { blockAt rest position tokens true indent indents with outerStarts := [outerStart] }

section Flow

variable (p : Position) (tokens : List Token) (allowed : Bool) (indent : Int)
  (indents : List Int) {first last : Char} {opening closing : Token}
  (hmarks : FlowMarks first last opening closing) (rest : List Char)

include hmarks

theorem token?_flowOpen :
    (blockAt (first :: rest) p tokens allowed indent indents).token? =
      some (flowAt rest ⟨p.line, p.column + 1, p.index + 1⟩ (opening :: tokens)
        (keyFor p tokens allowed indent) indent indents) := by
  have hpast : p.past [first] = _ := Position.past_of_noBreak (by simpa using hmarks.firstBreak) p
  rw [hmarks.opens _ _ rfl, flowStart?, saveKey?_blockAt]
  show some ((moveTo (flowAt (first :: rest) p tokens (keyFor p tokens allowed indent) indent
    indents) rest).emit opening) = _
  rw [moveTo_append [first] rfl]
  show some (flowAt rest (p.past [first]) (opening :: tokens) _ indent indents) = _
  rw [hpast]
  rfl

theorem token?_flowClose (outerStart : Option KeyStart) :
    (flowAt (last :: rest) p tokens outerStart indent indents).token? =
      some { blockAt rest ⟨p.line, p.column + 1, p.index + 1⟩ (closing :: tokens) false indent indents
        with keyStart := outerStart } := by
  have hpast : p.past [last] = _ := Position.past_of_noBreak (by simpa using hmarks.lastBreak) p
  rw [hmarks.closes _ _ rfl]
  show some ((moveTo { blockAt (last :: rest) p tokens false indent indents with
    keyStart := outerStart } rest).emit closing) = _
  rw [moveTo_append [last] rfl]
  show some { blockAt rest (p.past [last]) (closing :: tokens) false indent indents with
    keyStart := outerStart } = _
  rw [hpast]
  rfl

/-- An empty flow collection is read, and the scanner arrives on the line after it. -/
theorem steps_flow {c m : Nat} {content : List Char} (hready : Ready content)
    (hcolumn : allowed = true → (c : Int) ≠ p.column) (hindent : c ≤ p.column) :
    ∃ q, q.column = m ∧
      Steps (blockAt (first :: last :: '\n' :: (pad m ++ content)) p tokens allowed c indents)
        ((blockAt content q (closing :: opening :: tokens) true c indents).closeBlocks m) := by
  have hspent := keyFor_spent p tokens hcolumn
  have hopen := token?_flowOpen p tokens allowed c indents hmarks (last :: '\n' :: (pad m ++ content))
  have hclose := token?_flowClose ⟨p.line, p.column + 1, p.index + 1⟩ (opening :: tokens) c indents
    hmarks ('\n' :: (pad m ++ content)) (keyFor p tokens allowed c)
  refine ⟨_, rfl, .head ⟨_, hopen, ?_, arrive?_of_fresh (hmarks.closesReady _) ?_ ?_ ?_⟩
    (.single (step_line hready hclose ?_ ?_))⟩
  · simp [flowAt, blockAt]
  · rintro start ⟨⟩
  · intro keyStart hkeyStart start hstart
    rw [List.mem_singleton.1 hkeyStart] at hstart
    rw [(hspent start hstart).2]
    exact ⟨rfl, Nat.add_le_add_left (by decide) p.index⟩
  · show (c : Int) ≤ ((p.column + 1 : Nat) : Int)
    omega
  · intro start hstart
    obtain ⟨hrequired, hposition⟩ := hspent start hstart
    exact ⟨hrequired, Nat.le_of_eq (by rw [hposition])⟩
  · simp [flowAt, blockAt, pad]

end Flow

end Scanner

end SourceAtlas.Yaml
