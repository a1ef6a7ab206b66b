import SourceAtlas.Proofs.Yaml.Steps

/-!
# The tokens of a written text

The tokens of a value follow its shape. `scans_value` shows that the scanner reads them from the
text of the value, whatever stands on the lines after it, and closes the blocks that end there;
`scan?_render` is the case of a whole text.
-/

namespace SourceAtlas.Yaml

/-! ### The tokens of a value -/

mutual

/-- The tokens of a value after a key or a mark. Only after a key a sequence needs no block of its
own. -/
def Value.tokens (place : ValuePlace) : Value → List Token
  | .text s => [.scalar (styleOf s) s]
  | .truth b => [.scalar .plain (if b then "true" else "false").toList]
  | .sequence items =>
    if items.isEmpty then [.flowSequenceStart, .flowSequenceEnd]
    else match place with
      | .afterKey => itemTokens items
      | .afterMark => .blockSequenceStart :: itemTokens items ++ [.blockEnd]
  | .mapping entries =>
    if entries.isEmpty then [.flowMappingStart, .flowMappingEnd]
    else .blockMappingStart :: entryTokens entries ++ [.blockEnd]

/-- The tokens of the items of a sequence. -/
def itemTokens : List Value → List Token
  | [] => []
  | item :: items => .blockEntry :: item.tokens .afterMark ++ itemTokens items

/-- The tokens of the entries of a mapping. -/
def entryTokens : List (List Char × Value) → List Token
  | [] => []
  | (key, value) :: entries =>
    .key :: .scalar (styleOf key) key :: .value ::
      value.tokens (if isSimpleKey key then .afterKey else .afterMark) ++ entryTokens entries

end

/-- What stands between a mark and a value. -/
def ValuePlace.lead : ValuePlace → List Char
  | .afterKey => []
  | .afterMark => [' ']

/-- Whether a key may start where a value stands. -/
def ValuePlace.keyAllowed : ValuePlace → Bool
  | .afterKey => false
  | .afterMark => true

namespace Scanner

theorem writeItems_margin {items : List Value} (hne : items ≠ []) (column : Nat) :
    writeItems column true items = pad column ++ writeItems column false items := by
  obtain ⟨item, items, rfl⟩ := List.exists_cons_of_ne_nil hne
  simp [writeItems]

theorem writeEntries_margin {entries : List (List Char × Value)} (hne : entries ≠ [])
    (column : Nat) :
    writeEntries column true entries = pad column ++ writeEntries column false entries := by
  obtain ⟨⟨key, value⟩, entries, rfl⟩ := List.exists_cons_of_ne_nil hne
  simp [writeEntries]

/-- Between the items of a sequence nothing is closed. -/
theorem closeBlocks_blockAt (rest : List Char) (p : Position) (tokens : List Token) (indent : Int)
    (indents : List Int) : (blockAt rest p tokens true indent indents).closeBlocks indent =
      blockAt rest p tokens true indent indents :=
  closeBlocks_of_le (Int.le_refl indent)

/-- Where a value's own block ends. -/
theorem closeBlocks_inner {c m : Nat} (hm : m ≤ c) (rest : List Char) (p : Position)
    (tokens : List Token) (indents : List Int) (start : Token) (body : List Token) :
    (blockAt rest p (body ++ openTokens c (c + 2 : Nat) start tokens) true (c + 2 : Nat)
      (openIndents c (c + 2 : Nat) indents)).closeBlocks m =
      (blockAt rest p (.blockEnd :: (body ++ start :: tokens)) true c indents).closeBlocks m := by
  have hlt : (c : Int) < (c + 2 : Nat) := by omega
  rw [openTokens, openIndents, if_pos hlt, if_pos hlt]
  exact closeBlocks_push rfl rfl (by show (m : Int) < (c + 2 : Nat); omega)

/-- The scanner passes over the space in front of a value. -/
theorem scans_space {text : List Char} (hready : Ready text) {c : Nat} (p : Position)
    (hcolumn : c ≤ p.column) (tokens : List Token) (allowed : Bool) (indents : List Int)
    {b : Scanner}
    (hsteps : Steps (blockAt text ⟨p.line, p.column + 1, p.index + 1⟩ tokens allowed c indents) b) :
    Scans (blockAt (' ' :: text) p tokens allowed c indents) b := by
  refine ⟨_, arrive?_space rfl hready rfl rfl ?_, hsteps⟩
  show (c : Int) ≤ (p.column : Int) + 1
  omega

/-- The scanner passes over the line break and the margin in front of a collection. -/
theorem scans_newLine {text : List Char} (hready : Ready text) {c d : Nat} (h : c ≤ d)
    (p : Position) (tokens : List Token) (allowed : Bool) (indents : List Int) {b : Scanner}
    (hsteps : Steps (blockAt text ⟨p.line + 1, d, p.index + 1 + d⟩ tokens true c indents) b) :
    Scans (blockAt ('\n' :: (pad d ++ text)) p tokens allowed c indents) b := by
  refine ⟨_, arrive?_line rfl hready rfl (by rintro start ⟨⟩), ?_⟩
  rw [closeBlocks_of_le (by show (c : Int) ≤ (d : Int); omega)]
  exact hsteps

theorem ne_byteOrderMark_of_isPrintable {c : Char} (h : isPrintable c = true) : c ≠ '\ufeff' := by
  rintro rfl
  exact absurd h (by decide)

theorem ready_plain {w : List Char} (hw : plainAllowed w = true) (hne : w ≠ []) (rest : List Char) :
    Ready (w ++ rest) := by
  have hpart := plainPart_of_plainAllowed hw hne
  simp only [plainAllowed, hasUnprintable, Bool.and_eq_true, Bool.not_eq_true',
    List.any_eq_false] at hw
  obtain ⟨c, w, rfl⟩ := List.exists_cons_of_ne_nil hne
  obtain ⟨hblank, hhash⟩ := hpart.head c rfl
  exact ready_cons.2 ⟨hblank, hhash,
    ne_byteOrderMark_of_isPrintable (by simpa using hw.1.1.1.2 c (List.mem_cons_self ..))⟩

theorem ready_scalar (m : Nat) (s rest : List Char) : Ready (scalar m s ++ rest) := by
  rcases styleOf_cases s with ⟨hstyle, htyped, hplain⟩ | ⟨hstyle, -⟩ | ⟨hstyle, -⟩ | hstyle
  · rw [scalar, hstyle, List.append_assoc]
    exact ready_plain hplain (ne_nil_of_isTyped htyped) _
  all_goals
    rw [scalar, hstyle]
    exact ready_cons.2 (by decide)

theorem ready_simpleKey (key rest : List Char) : Ready (simpleKey key ++ rest) := by
  rcases styleOf_cases key with ⟨hstyle, htyped, hplain⟩ | ⟨hstyle, -⟩ | ⟨hstyle, -⟩ | hstyle
  · rw [simpleKey, hstyle]
    exact ready_plain hplain (ne_nil_of_isTyped htyped) _
  all_goals
    rw [simpleKey, hstyle]
    exact ready_cons.2 (by decide)

theorem ready_writeItems {items : List Value} (hne : items ≠ []) (d : Nat) (rest : List Char) :
    Ready (writeItems d false items ++ rest) := by
  obtain ⟨item, items, rfl⟩ := List.exists_cons_of_ne_nil hne
  rw [writeItems]
  exact ready_cons.2 (by decide)

theorem ready_writeEntries {entries : List (List Char × Value)} (hne : entries ≠ []) (d : Nat)
    (rest : List Char) : Ready (writeEntries d false entries ++ rest) := by
  obtain ⟨⟨key, value⟩, entries, rfl⟩ := List.exists_cons_of_ne_nil hne
  by_cases hkey : isSimpleKey key = true
  · rw [writeEntries, if_pos hkey, if_neg Bool.false_ne_true, List.nil_append, List.append_assoc,
      List.append_assoc]
    exact ready_simpleKey key _
  · rw [writeEntries, if_neg hkey]
    exact ready_cons.2 (by decide)

theorem blankNext_write (c : Nat) (value : Value) (rest : List Char) :
    blankNext (value.write .afterKey c ++ rest) = true := by
  cases value with
  | text s => rw [Value.write]; rfl
  | truth b => rw [Value.write]; rfl
  | sequence items =>
    rw [Value.write]
    split <;> rfl
  | mapping entries =>
    rw [Value.write]
    split <;> rfl

/-- A text is read as a value, and the scanner arrives on the line after it. -/
theorem scans_text {c m : Nat} (hm : m ≤ c) {content : List Char} (hready : Ready content)
    (p : Position) (hcolumn : c ≤ p.column) (tokens : List Token) (allowed : Bool)
    (indents : List Int) (s : List Char) :
    ∃ q, q.column = m ∧
      Scans (blockAt (' ' :: (scalar (c + 2) s ++ (pad m ++ content))) p tokens allowed c indents)
        ((blockAt content q (.scalar (styleOf s) s :: tokens) true c indents).closeBlocks m) := by
  have hinner : allowed = true → (c : Int) ≠ ((p.column + 1 : Nat) : Int) := fun _ => by omega
  obtain ⟨q, hq, hstep⟩ := step_scalar hm hready ⟨p.line, p.column + 1, p.index + 1⟩ tokens hinner
    indents s
  exact ⟨q, hq, scans_space (ready_scalar _ s _) p hcolumn tokens allowed indents (.single hstep)⟩

/-- A truth value is read, and the scanner arrives on the line after it. -/
theorem scans_truth {c m : Nat} (hm : m ≤ c) {content : List Char} (hready : Ready content)
    (p : Position) (hcolumn : c ≤ p.column) (tokens : List Token) (allowed : Bool)
    (indents : List Int) (b : Bool) :
    ∃ q, q.column = m ∧
      Scans (blockAt (' ' :: ((if b then "true\n" else "false\n").toList ++ (pad m ++ content))) p
          tokens allowed c indents)
        ((blockAt content q (.scalar .plain (if b then "true" else "false").toList :: tokens) true c
          indents).closeBlocks m) := by
  have hinner : allowed = true → (c : Int) ≠ ((p.column + 1 : Nat) : Int) := fun _ => by omega
  have hplain : plainAllowed (if b then "true" else "false").toList = true := by
    cases b <;> decide
  have hne : (if b then "true" else "false").toList ≠ [] := by
    cases b <;> decide
  have hline : (if b then "true\n" else "false\n").toList ++ (pad m ++ content) =
      (if b then "true" else "false").toList ++ '\n' :: (pad m ++ content) := by
    cases b <;> rfl
  obtain ⟨q, hq, hstep⟩ := step_plain hm hready ⟨p.line, p.column + 1, p.index + 1⟩ tokens hinner
    indents hplain hne
  rw [hline]
  exact ⟨q, hq, scans_space (ready_plain hplain hne _) p hcolumn tokens allowed indents
    (.single hstep)⟩

/-- An empty collection is read, and the scanner arrives on the line after it. -/
theorem scans_flow {first last : Char} {opening closing : Token}
    (hmarks : FlowMarks first last opening closing) {c m : Nat} {content : List Char}
    (hready : Ready content) (p : Position) (hcolumn : c ≤ p.column) (tokens : List Token)
    (allowed : Bool) (indents : List Int) :
    ∃ q, q.column = m ∧
      Scans (blockAt (' ' :: first :: last :: '\n' :: (pad m ++ content)) p tokens allowed c indents)
        ((blockAt content q (closing :: opening :: tokens) true c indents).closeBlocks m) := by
  obtain ⟨q, hq, hsteps⟩ := @steps_flow ⟨p.line, p.column + 1, p.index + 1⟩ tokens allowed indents
    first last opening closing hmarks c m content hready
    (fun _ => by show (c : Int) ≠ ((p.column + 1 : Nat) : Int); omega) (Nat.le_succ_of_le hcolumn)
  exact ⟨q, hq, scans_space (hmarks.opensReady _) p hcolumn tokens allowed indents hsteps⟩

/-- An entry is read, if its value is, and the scanner arrives on the line after it. -/
theorem steps_entry {d m : Nat} {content : List Char} (p : Position) (hcolumn : p.column = d)
    (tokens : List Token) {indent : Int} (hindent : indent ≤ d) (indents : List Int)
    (key : List Char) (value : Value)
    (hvalue : ∀ (place : ValuePlace) (p : Position), d ≤ p.column →
      (place = .afterMark → p.column = d + 1) → ∀ (tokens : List Token) (indents : List Int),
      ∃ q, q.column = m ∧
        Scans (blockAt (place.lead ++ (value.write place d ++ (pad m ++ content))) p tokens
          place.keyAllowed d indents)
          ((blockAt content q ((value.tokens place).reverse ++ tokens) true d indents).closeBlocks
            m)) :
    ∃ q, q.column = m ∧
      Steps (blockAt (writeEntries d false [(key, value)] ++ (pad m ++ content)) p tokens true
          indent indents)
        ((blockAt content q ((entryTokens [(key, value)]).reverse ++
            openTokens indent d .blockMappingStart tokens) true d
          (openIndents indent d indents)).closeBlocks m) := by
  by_cases hkey : isSimpleKey key = true
  · obtain ⟨t, q, hstep, hrest, hq, htoken⟩ := step_key
      (blankNext_write d value (pad m ++ content)) p tokens indents hkey hcolumn hindent
    obtain ⟨r, hr, hscans⟩ := hvalue .afterKey q hq (by rintro ⟨⟩) _ (openIndents indent d indents)
    have hsteps := hscans.steps htoken (by simp [hrest, blockAt, ValuePlace.lead])
    refine ⟨r, hr, ?_⟩
    simpa [writeEntries, entryTokens, hkey] using Relation.ReflTransGen.head hstep hsteps
  · have hmark := token?_keyMark (scalar (d + 2) key ++ (pad d ++ ':' :: ' ' ::
      (value.write .afterMark d ++ (pad m ++ content)))) p tokens indents hcolumn hindent
    have hready : Ready (':' :: ' ' :: (value.write .afterMark d ++ (pad m ++ content))) :=
      ready_cons.2 (by decide)
    obtain ⟨q, hq, hscans⟩ := scans_text (Nat.le_refl d) hready (p.past ['?'])
      (by show d ≤ p.column + 1; omega)
      (.key :: openTokens indent d .blockMappingStart tokens) true (openIndents indent d indents) key
    have hsteps := hscans.steps hmark (by simp [blockAt])
    rw [closeBlocks_blockAt] at hsteps
    have hcolon := token?_valueMark (value.write .afterMark d ++ (pad m ++ content)) q
      (.scalar (styleOf key) key :: .key :: openTokens indent d .blockMappingStart tokens)
      (openIndents indent d indents) hq
    obtain ⟨r, hr, hvalues⟩ := hvalue .afterMark (q.past [':'])
      (by show d ≤ q.column + 1; omega) (fun _ => by show q.column + 1 = d + 1; omega) _
      (openIndents indent d indents)
    have hrest := hvalues.steps hcolon (by simp [blockAt, ValuePlace.lead])
    refine ⟨r, hr, ?_⟩
    simpa [writeEntries, entryTokens, hkey] using hsteps.trans hrest

theorem openTokens_self (column : Int) (start : Token) (tokens : List Token) :
    openTokens column column start tokens = tokens :=
  if_neg (Int.lt_irrefl column)

theorem openIndents_self (column : Int) (indents : List Int) :
    openIndents column column indents = indents :=
  if_neg (Int.lt_irrefl column)

theorem write_emptySequence (place : ValuePlace) (c : Nat) :
    (Value.sequence []).write place c = place.gap ++ ['[', ']', '\n'] := by
  cases place <;> simp [Value.write]

theorem write_emptyMapping (place : ValuePlace) (c : Nat) :
    (Value.mapping []).write place c = place.gap ++ ['\x7b', '\x7d', '\n'] := by
  cases place <;> simp [Value.write]

theorem tokens_emptySequence (place : ValuePlace) :
    (Value.sequence []).tokens place = [.flowSequenceStart, .flowSequenceEnd] := by
  cases place <;> simp [Value.tokens]

theorem tokens_emptyMapping (place : ValuePlace) :
    (Value.mapping []).tokens place = [.flowMappingStart, .flowMappingEnd] := by
  simp [Value.tokens]

theorem writeEntries_cons (d : Nat) (first : Bool) (entry : List Char × Value)
    (entries : List (List Char × Value)) :
    writeEntries d first (entry :: entries) =
      writeEntries d first [entry] ++ writeEntries d true entries := by
  simp [writeEntries]

theorem entryTokens_cons (entry : List Char × Value) (entries : List (List Char × Value)) :
    entryTokens (entry :: entries) = entryTokens [entry] ++ entryTokens entries := by
  simp [entryTokens]

theorem lead_append_gap (place : ValuePlace) (text : List Char) :
    place.lead ++ (place.gap ++ text) = ' ' :: text := by
  cases place <;> rfl

mutual

/-- A value is read, and the scanner arrives on the line after it. -/
theorem scans_value (place : ValuePlace) {c m : Nat} (hm : m ≤ c) {content : List Char}
    (hready : Ready content) (p : Position) (hcolumn : c ≤ p.column)
    (hmark : place = .afterMark → p.column = c + 1) (tokens : List Token) (indents : List Int) :
    (value : Value) → ∃ q, q.column = m ∧
      Scans (blockAt (place.lead ++ (value.write place c ++ (pad m ++ content))) p tokens
        place.keyAllowed c indents)
        ((blockAt content q ((value.tokens place).reverse ++ tokens) true c indents).closeBlocks m)
  | .text s => by
    rw [Value.write, Value.tokens, List.append_assoc, lead_append_gap]
    exact scans_text hm hready p hcolumn tokens _ indents s
  | .truth b => by
    rw [Value.write, Value.tokens, List.append_assoc, lead_append_gap]
    exact scans_truth hm hready p hcolumn tokens _ indents b
  | .sequence [] => by
    rw [write_emptySequence, tokens_emptySequence, List.append_assoc, lead_append_gap]
    exact scans_flow flowMarks_sequence hready p hcolumn tokens _ indents
  | .sequence (item :: items) => by
    have hne : item :: items ≠ [] := List.cons_ne_nil item items
    have hfirst := ready_writeItems hne
    cases place with
    | afterKey =>
      -- The items stand at the column of the key, so they open no block.
      obtain ⟨q, hq, hsteps⟩ := steps_items hm hready ⟨p.line + 1, c, p.index + 1 + c⟩ rfl tokens
        (Int.le_refl c) indents (item :: items) hne
      rw [openTokens_self, openIndents_self] at hsteps
      refine ⟨q, hq, ?_⟩
      rw [Value.write, Value.tokens, if_neg (by simp), if_neg (by simp), writeItems_margin hne]
      simpa [ValuePlace.lead, ValuePlace.keyAllowed] using
        scans_newLine (hfirst c _) (Nat.le_refl c) p tokens false indents hsteps
    | afterMark =>
      have hcolumn' : p.column + 1 = c + 2 := by rw [hmark rfl]
      have hindent : (c : Int) ≤ (c + 2 : Nat) := by omega
      obtain ⟨q, hq, hsteps⟩ := steps_items (Nat.le_add_right_of_le hm) hready
        ⟨p.line, p.column + 1, p.index + 1⟩ hcolumn' tokens hindent indents (item :: items) hne
      rw [closeBlocks_inner hm] at hsteps
      refine ⟨q, hq, ?_⟩
      rw [Value.write, Value.tokens, if_neg (by simp), if_neg (by simp)]
      simpa [ValuePlace.lead, ValuePlace.keyAllowed] using
        scans_space (hfirst _ _) p hcolumn tokens true indents hsteps
  | .mapping [] => by
    rw [write_emptyMapping, tokens_emptyMapping, List.append_assoc, lead_append_gap]
    exact scans_flow flowMarks_mapping hready p hcolumn tokens _ indents
  | .mapping (entry :: entries) => by
    have hne : entry :: entries ≠ [] := List.cons_ne_nil entry entries
    have hfirst := ready_writeEntries hne (c + 2) (pad m ++ content)
    have hindent : (c : Int) ≤ (c + 2 : Nat) := by omega
    have hcolumn' : place = .afterMark → p.column + 1 = c + 2 := fun h => by rw [hmark h]
    have hsteps := fun p hp => steps_entries (Nat.le_add_right_of_le hm) hready p hp tokens hindent
      indents (entry :: entries) hne
    simp only [closeBlocks_inner hm] at hsteps
    cases place with
    | afterKey =>
      obtain ⟨q, hq, hsteps⟩ := hsteps ⟨p.line + 1, c + 2, p.index + 1 + (c + 2)⟩ rfl
      refine ⟨q, hq, ?_⟩
      rw [Value.write, Value.tokens, if_neg (by simp), if_neg (by simp), writeEntries_margin hne]
      simpa [ValuePlace.lead, ValuePlace.keyAllowed] using
        scans_newLine hfirst (Nat.le_add_right c 2) p tokens false indents hsteps
    | afterMark =>
      obtain ⟨q, hq, hsteps⟩ := hsteps ⟨p.line, p.column + 1, p.index + 1⟩ (hcolumn' rfl)
      refine ⟨q, hq, ?_⟩
      rw [Value.write, Value.tokens, if_neg (by simp), if_neg (by simp)]
      simpa [ValuePlace.lead, ValuePlace.keyAllowed] using
        scans_space hfirst p hcolumn tokens true indents hsteps

/-- The items of a sequence are read, and the scanner arrives on the line after them. -/
theorem steps_items {d m : Nat} (hm : m ≤ d) {content : List Char} (hready : Ready content)
    (p : Position) (hcolumn : p.column = d) (tokens : List Token) {indent : Int}
    (hindent : indent ≤ d) (indents : List Int) :
    (items : List Value) → items ≠ [] → ∃ q, q.column = m ∧
      Steps (blockAt (writeItems d false items ++ (pad m ++ content)) p tokens true indent indents)
        ((blockAt content q ((itemTokens items).reverse ++
            openTokens indent d .blockSequenceStart tokens) true d
          (openIndents indent d indents)).closeBlocks m)
  | [item], _ => by
    have htoken := token?_item (item.write .afterMark d ++ (pad m ++ content)) p tokens indents
      hcolumn hindent
    obtain ⟨q, hq, hscans⟩ := scans_value .afterMark hm hready (p.past ['-'])
      (by show d ≤ p.column + 1; omega) (fun _ => by show p.column + 1 = d + 1; omega)
      (.blockEntry :: openTokens indent d .blockSequenceStart tokens) (openIndents indent d indents)
      item
    have hsteps := hscans.steps htoken (by simp [blockAt, ValuePlace.lead])
    refine ⟨q, hq, ?_⟩
    simpa [writeItems, itemTokens] using hsteps
  | item :: next :: items, _ => by
    have hne : next :: items ≠ [] := List.cons_ne_nil next items
    have htoken := token?_item (item.write .afterMark d ++ (pad d ++
      (writeItems d false (next :: items) ++ (pad m ++ content)))) p tokens indents hcolumn hindent
    obtain ⟨q, hq, hscans⟩ := scans_value .afterMark (Nat.le_refl d)
      (ready_writeItems hne d (pad m ++ content)) (p.past ['-']) (by show d ≤ p.column + 1; omega)
      (fun _ => by show p.column + 1 = d + 1; omega)
      (.blockEntry :: openTokens indent d .blockSequenceStart tokens) (openIndents indent d indents)
      item
    have hfirst := hscans.steps htoken (by simp [blockAt, ValuePlace.lead])
    rw [closeBlocks_blockAt] at hfirst
    obtain ⟨r, hr, hothers⟩ := steps_items hm hready q hq _ (Int.le_refl d)
      (openIndents indent d indents) (next :: items) hne
    rw [openTokens_self, openIndents_self] at hothers
    have hsteps := hfirst.trans hothers
    refine ⟨r, hr, ?_⟩
    rw [writeItems, writeItems_margin hne, itemTokens]
    simpa using hsteps

/-- The entries of a mapping are read, and the scanner arrives on the line after them. -/
theorem steps_entries {d m : Nat} (hm : m ≤ d) {content : List Char} (hready : Ready content)
    (p : Position) (hcolumn : p.column = d) (tokens : List Token) {indent : Int}
    (hindent : indent ≤ d) (indents : List Int) :
    (entries : List (List Char × Value)) → entries ≠ [] → ∃ q, q.column = m ∧
      Steps (blockAt (writeEntries d false entries ++ (pad m ++ content)) p tokens true indent
          indents)
        ((blockAt content q ((entryTokens entries).reverse ++
            openTokens indent d .blockMappingStart tokens) true d
          (openIndents indent d indents)).closeBlocks m)
  | [(key, value)], _ => by
    exact steps_entry p hcolumn tokens hindent indents key value
      fun place p hcolumn hmark tokens indents =>
        scans_value place hm hready p hcolumn hmark tokens indents value
  | (key, value) :: next :: entries, _ => by
    have hne : next :: entries ≠ [] := List.cons_ne_nil next entries
    obtain ⟨q, hq, hfirst⟩ := steps_entry p hcolumn tokens hindent indents key value
      fun place p hcolumn hmark tokens indents => scans_value place (Nat.le_refl d)
        (ready_writeEntries hne d (pad m ++ content)) p hcolumn hmark tokens indents value
    rw [closeBlocks_blockAt] at hfirst
    obtain ⟨r, hr, hothers⟩ := steps_entries hm hready q hq _ (Int.le_refl d)
      (openIndents indent d indents) (next :: entries) hne
    rw [openTokens_self, openIndents_self] at hothers
    have hsteps := hfirst.trans hothers
    refine ⟨r, hr, ?_⟩
    rw [writeEntries_cons, writeEntries_margin hne, entryTokens_cons]
    simpa using hsteps

end

end Scanner

/-! ### Characters -/

theorem isReadable_of_isPrintable {c : Char} (h : isPrintable c = true) : isReadable c = true := by
  simp only [isPrintable, isReadable, Bool.or_eq_true, Bool.and_eq_true, beq_iff_eq,
    decide_eq_true_eq] at h ⊢
  omega

theorem isReadable_of_isVisible {c : Char} (h : isVisible c = true) : isReadable c = true := by
  simp only [isVisible, isReadable, Bool.or_eq_true, Bool.and_eq_true, beq_iff_eq,
    decide_eq_true_eq] at h ⊢
  omega

theorem readable_pad (n : Nat) : (pad n).all isReadable = true := by
  rw [List.all_eq_true]
  intro c hc
  rw [List.eq_of_mem_replicate hc]
  decide

theorem readable_escapeChar (c : Char) : (escapeChar c).all isReadable = true := by
  rcases escapeChar_cases c with ⟨hself, hprintable, -⟩ | ⟨ds, hds, hvisible, -⟩
  · rw [hself, List.all_cons, isReadable_of_isPrintable hprintable]
    rfl
  · rw [hds, List.all_cons, List.all_eq_true.2 fun d hd =>
      isReadable_of_isVisible (List.all_eq_true.1 hvisible d hd)]
    rfl

theorem readable_doubleQuoted (s : List Char) : (doubleQuoted s).all isReadable = true := by
  have hinner : (s.flatMap escapeChar).all isReadable = true := by
    rw [List.all_flatMap, List.all_eq_true]
    exact fun c _ => readable_escapeChar c
  simp only [doubleQuoted, List.cons_append, List.all_cons, List.all_append, hinner]
  decide

theorem readable_indentLines (margin : Nat) (lineStart : Bool) {s : List Char}
    (hs : s.all isReadable = true) : (indentLines margin lineStart s).all isReadable = true := by
  induction s generalizing lineStart with
  | nil => rfl
  | cons c s ih =>
    rw [List.all_cons, Bool.and_eq_true] at hs
    have hmargin : (if lineStart then pad margin else []).all isReadable = true := by
      split
      · exact readable_pad margin
      · rfl
    rw [indentLines]
    split
    · rw [List.all_cons, hs.1, ih _ hs.2]
      rfl
    · rw [List.all_append, hmargin, List.all_cons, hs.1, ih _ hs.2]
      rfl

theorem readable_singleQuoted (margin : Nat) {s : List Char} (hs : s.all isReadable = true) :
    (singleQuoted margin s).all isReadable = true := by
  have hinner : (s.flatMap fun c => if c == '\'' then ['\'', '\''] else [c]).all isReadable =
      true := by
    rw [List.all_flatMap, List.all_eq_true]
    intro c hc
    split
    · decide
    · rw [List.all_cons, List.all_eq_true.1 hs c hc]
      rfl
  have hmargin : (if s.getLast?.any isBreak then pad margin else []).all isReadable = true := by
    split
    · exact readable_pad margin
    · rfl
  simp only [singleQuoted, List.cons_append, List.all_cons, List.all_append,
    readable_indentLines margin false hinner, hmargin]
  decide

theorem readable_literalMarks (s : List Char) : (literalMarks s).all isReadable = true := by
  have hmargin : (if s.head?.any fun c => c == ' ' || isBreak c then ['2'] else []).all
      isReadable = true := by
    split <;> decide
  rw [literalMarks, List.cons_append, List.all_cons, List.all_append, hmargin]
  split
  · decide
  · split <;> decide
  · split
    · decide
    · split <;> decide

theorem readable_literalBlock (margin : Nat) {s : List Char} (hs : s.all isReadable = true) :
    (literalBlock margin s).all isReadable = true := by
  have hend : (if s.getLast?.any isBreak then [] else ['\n']).all isReadable = true := by
    split <;> decide
  simp only [literalBlock, List.all_cons, List.all_append,
    readable_literalMarks, readable_indentLines margin true hs, hend]
  decide

/-- A text with a character that cannot be read is written between double quotes. -/
theorem readable_of_styleOf {s : List Char} (h : styleOf s ≠ .doubleQuoted) :
    s.all isReadable = true := by
  have hprintable : hasUnprintable s = false := by
    rcases styleOf_cases s with ⟨-, -, hplain⟩ | ⟨-, -, hsingle⟩ | ⟨-, -, hliteral⟩ | hstyle
    · simp only [plainAllowed, Bool.and_eq_true, Bool.not_eq_true'] at hplain
      exact hplain.1.1.1.2
    · simp only [singleAllowed, Bool.and_eq_true, Bool.not_eq_true'] at hsingle
      exact hsingle.2
    · simp only [literalAllowed, Bool.and_eq_true, Bool.not_eq_true'] at hliteral
      exact hliteral.2
    · exact absurd hstyle h
  rw [List.all_eq_true]
  intro c hc
  have hc' := List.any_eq_false.1 hprintable c hc
  exact isReadable_of_isPrintable (by simpa using hc')

theorem readable_scalar (margin : Nat) (s : List Char) :
    (scalar margin s).all isReadable = true := by
  by_cases h : styleOf s = .doubleQuoted
  · rw [scalar, h, List.all_append, readable_doubleQuoted]
    decide
  · have hs := readable_of_styleOf h
    rw [scalar]
    split
    · rw [List.all_append, hs]
      decide
    · rw [List.all_append, readable_singleQuoted margin hs]
      decide
    · exact readable_literalBlock margin hs
    · rw [List.all_append, readable_doubleQuoted]
      decide

theorem readable_simpleKey (key : List Char) : (simpleKey key).all isReadable = true := by
  by_cases h : styleOf key = .doubleQuoted
  · rw [simpleKey, h]
    exact readable_doubleQuoted key
  · have hkey := readable_of_styleOf h
    rw [simpleKey]
    split
    · exact hkey
    · exact readable_singleQuoted 0 hkey
    · exact readable_doubleQuoted key

theorem readable_gap (place : ValuePlace) : place.gap.all isReadable = true := by
  cases place <;> decide

theorem readable_margin (margin : Bool) (column : Nat) :
    (if margin then pad column else []).all isReadable = true := by
  split
  · exact readable_pad column
  · rfl

mutual

/-- Whatever the texts of a value hold, its own text can be read. -/
theorem readable_write (place : ValuePlace) (c : Nat) :
    (value : Value) → (value.write place c).all isReadable = true
  | .text s => by
    rw [Value.write, List.all_append, readable_gap, readable_scalar]
    rfl
  | .truth b => by
    rw [Value.write, List.all_append, readable_gap]
    cases b <;> decide
  | .sequence items => by
    have hempty : (place.gap ++ "[]\n".toList).all isReadable = true := by
      rw [List.all_append, readable_gap]
      decide
    cases place with
    | afterKey =>
      rw [Value.write]
      split
      · exact hempty
      · rw [List.all_cons, readable_writeItems c true items]
        decide
    | afterMark =>
      rw [Value.write]
      split
      · exact hempty
      · exact readable_writeItems (c + 2) false items
  | .mapping entries => by
    have hempty : (place.gap ++ "\x7b\x7d\n".toList).all isReadable = true := by
      rw [List.all_append, readable_gap]
      decide
    cases place with
    | afterKey =>
      rw [Value.write]
      split
      · exact hempty
      · rw [List.all_cons, readable_writeEntries (c + 2) true entries]
        decide
    | afterMark =>
      rw [Value.write]
      split
      · exact hempty
      · exact readable_writeEntries (c + 2) false entries

theorem readable_writeItems (d : Nat) (margin : Bool) :
    (items : List Value) → (writeItems d margin items).all isReadable = true
  | [] => rfl
  | item :: items => by
    simp only [writeItems, List.all_append, List.all_cons, readable_margin,
      readable_write .afterMark d item, readable_writeItems d true items]
    decide

theorem readable_writeEntries (d : Nat) (margin : Bool) :
    (entries : List (List Char × Value)) → (writeEntries d margin entries).all isReadable = true
  | [] => rfl
  | (key, value) :: entries => by
    simp only [writeEntries, List.all_append, readable_margin,
      readable_writeEntries d true entries]
    split
    · simp only [List.all_append, List.all_cons, readable_simpleKey,
        readable_write .afterKey d value]
      decide
    · simp only [List.cons_append, List.all_append, List.all_cons, readable_scalar, readable_pad,
        readable_write .afterMark d value]
      decide

end

/-! ### Texts of mappings -/

theorem render_eq {entries : List (List Char × Value)} (hne : entries ≠ []) :
    render entries = writeEntries 0 false entries := by
  obtain ⟨entry, entries, rfl⟩ := List.exists_cons_of_ne_nil hne
  exact Scanner.writeEntries_margin (List.cons_ne_nil entry entries) 0

/-- Where the text ends, the block of the outermost mapping ends. -/
theorem Scanner.finish?_blockAt (p : Position) (body : List Token) :
    (Scanner.blockAt [] p (body ++ [.blockMappingStart]) true (0 : Nat) [-1]).finish? =
      some (.blockMappingStart :: body.reverse ++ [.blockEnd]) := by
  rw [finish?, closeBlocks_push rfl rfl (by show (-1 : Int) < (0 : Nat); decide),
    closeBlocks_of_le (Int.le_refl _)]
  show some (Token.blockEnd :: (body ++ [.blockMappingStart])).reverse = _
  simp

/-- The tokens of the text of a mapping are those of its entries. -/
theorem scan?_render {entries : List (List Char × Value)} (hne : entries ≠ []) :
    scan? (render entries) = some (.blockMappingStart :: entryTokens entries ++ [.blockEnd]) := by
  have hready := Scanner.ready_writeEntries hne 0 []
  rw [List.append_nil] at hready
  have harrive : (Scanner.blockAt (writeEntries 0 false entries) {} [] true (-1) []).arrive? =
      some (Scanner.blockAt (writeEntries 0 false entries) {} [] true (-1) []) :=
    Scanner.arrive?_of_fresh hready (by rintro start ⟨⟩) (by rintro start ⟨⟩)
      (by show (-1 : Int) ≤ (0 : Nat); decide)
  obtain ⟨q, hq, hsteps⟩ := Scanner.steps_entries (Nat.le_refl 0) ready_nil {} rfl []
    (by decide : (-1 : Int) ≤ (0 : Nat)) [] entries hne
  rw [Scanner.closeBlocks_blockAt] at hsteps
  have hrun := Scanner.run?_of_scans ⟨_, harrive, by simpa [pad] using hsteps⟩ rfl
  have hfinish := Scanner.finish?_blockAt q (entryTokens entries).reverse
  rw [scan?, render_eq hne, if_pos (readable_writeEntries 0 false entries)]
  rw [List.reverse_reverse] at hfinish
  exact hrun.trans hfinish

end SourceAtlas.Yaml
