import SourceAtlas.Proofs.Yaml.Tokens
import SourceAtlas.Yaml.Node

/-!
# The nodes of a written text

The node of a value follows its shape. `run_node` shows that it is read from the tokens of the
value, whatever tokens come after them, within a bound that is twice their number;
`parse?_of_entries` puts this together with the scanner's result for a whole text.
-/

namespace SourceAtlas.Yaml

/-! ### The node of a value -/

mutual

/-- The node of a value. -/
def Value.node : Value → Node
  | .text s => .scalar none (styleOf s) s
  | .truth b => .scalar none .plain (if b then "true" else "false").toList
  | .sequence items => .sequence (itemNodes items)
  | .mapping entries => .mapping (entryNodes entries)

/-- The nodes of the items of a sequence. -/
def itemNodes : List Value → List Node
  | [] => []
  | item :: items => item.node :: itemNodes items

/-- The nodes of the entries of a mapping. -/
def entryNodes : List (List Char × Value) → List (Node × Node)
  | [] => []
  | (key, value) :: entries =>
    (.scalar none (styleOf key) key, value.node) :: entryNodes entries

end

/-- Whether a token opens a value that has no anchor and no tag. -/
def Token.opensValue : Token → Bool
  | .scalar _ _ => true
  | .flowSequenceStart => true
  | .flowMappingStart => true
  | .blockSequenceStart => true
  | .blockMappingStart => true
  | _ => false

/-- A value starts with a token that opens it, or after a key with the mark of an item. -/
theorem Value.exists_tokens (value : Value) (place : ValuePlace) :
    ∃ token tokens, value.tokens place = token :: tokens ∧
      (token.opensValue = true ∨ place = .afterKey ∧ token = .blockEntry) := by
  cases value with
  | text s => exact ⟨_, _, by rw [Value.tokens], .inl rfl⟩
  | truth b => exact ⟨_, _, by rw [Value.tokens], .inl rfl⟩
  | sequence items =>
    cases items with
    | nil => exact ⟨_, _, Scanner.tokens_emptySequence place, .inl rfl⟩
    | cons item items =>
      cases place with
      | afterKey =>
        exact ⟨_, _, by rw [Value.tokens, if_neg (by simp), itemTokens]; rfl, .inr ⟨rfl, rfl⟩⟩
      | afterMark => exact ⟨_, _, by rw [Value.tokens, if_neg (by simp)]; rfl, .inl rfl⟩
  | mapping entries =>
    rw [Value.tokens]
    split
    · exact ⟨_, _, rfl, .inl rfl⟩
    · exact ⟨_, _, rfl, .inl rfl⟩

/-- A value does not start with a mark that would stand for a missing value. -/
theorem Value.head?_tokens (value : Value) {place : ValuePlace} (others : List Token)
    {marks : List Token} (hmarks : ∀ token ∈ marks, token.opensValue = false)
    (hentry : place = .afterKey → .blockEntry ∉ marks) :
    (value.tokens place ++ others).head?.any marks.contains = false := by
  obtain ⟨token, tokens, htokens, hfirst⟩ := value.exists_tokens place
  rw [htokens]
  show marks.contains token = false
  rw [List.contains_eq_mem, decide_eq_false_iff_not]
  intro hmem
  rcases hfirst with hopens | ⟨hplace, rfl⟩
  · rw [hmarks token hmem] at hopens
    cases hopens
  · exact hentry hplace hmem

/-- After the entries of a mapping, or in front of one, no item starts. -/
theorem head?_entryTokens (entries : List (List Char × Value)) (rest : List Token) :
    (entryTokens entries ++ .blockEnd :: rest).head? ≠ some .blockEntry := by
  cases entries with
  | nil => rintro ⟨⟩
  | cons entry entries =>
    rw [entryTokens]
    rintro ⟨⟩

namespace NodeReader

variable {tokens : List Token} {anchors : List (List Char × Nat)}
  {handles : List (List Char × List Char)}

/-! ### Single tokens -/

theorem run_take?_self (token : Token) :
    (take? token).run ⟨token :: tokens, anchors, handles⟩ =
      some (true, ⟨tokens, anchors, handles⟩) := by
  simp [take?, peek, skip]

theorem run_take?_of_ne {token : Token} (h : tokens.head? ≠ some token) :
    (take? token).run ⟨tokens, anchors, handles⟩ = some (false, ⟨tokens, anchors, handles⟩) := by
  simp [take?, peek, h]

theorem run_expect (token : Token) :
    (expect token).run ⟨token :: tokens, anchors, handles⟩ =
      some ((), ⟨tokens, anchors, handles⟩) := by
  simp [expect, run_take?_self]

theorem run_valueUnless {marks : List Token} {reader : NodeReader Node}
    (h : tokens.head?.any marks.contains = false) :
    (valueUnless marks reader).run ⟨tokens, anchors, handles⟩ =
      reader.run ⟨tokens, anchors, handles⟩ := by
  simp [valueUnless, sees, peek, h]

/-! ### Nodes -/

section Node

variable (block indentless : Bool) {bound : Nat}

theorem run_node_scalar (style : ScalarStyle) (text : List Char) :
    (node block indentless (bound + 1)).run ⟨.scalar style text :: tokens, anchors, handles⟩ =
      some (.scalar none style text, ⟨tokens, anchors, handles⟩) := by
  rw [node]
  rfl

theorem run_node_emptySequence :
    (node block indentless (bound + 2)).run
        ⟨.flowSequenceStart :: .flowSequenceEnd :: tokens, anchors, handles⟩ =
      some (.sequence [], ⟨tokens, anchors, handles⟩) := by
  rw [node, flowItems]
  rfl

theorem run_node_emptyMapping :
    (node block indentless (bound + 2)).run
        ⟨.flowMappingStart :: .flowMappingEnd :: tokens, anchors, handles⟩ =
      some (.mapping [], ⟨tokens, anchors, handles⟩) := by
  rw [node, flowEntries]
  rfl

theorem run_node_indentless {items : List Node} {s : NodeState}
    (h : (indentlessItems bound).run ⟨.blockEntry :: tokens, anchors, handles⟩ = some (items, s)) :
    (node block true (bound + 1)).run ⟨.blockEntry :: tokens, anchors, handles⟩ =
      some (.sequence items, s) := by
  rw [node]
  show (((indentlessItems bound).run _).bind fun result => some _).bind _ = _
  rw [h]
  rfl

theorem run_node_blockSequence {items : List Node} {s : NodeState}
    (h : (blockItems bound).run ⟨tokens, anchors, handles⟩ = some (items, s)) :
    (node true indentless (bound + 1)).run ⟨.blockSequenceStart :: tokens, anchors, handles⟩ =
      some (.sequence items, s) := by
  rw [node]
  show (((blockItems bound).run ⟨tokens, anchors, handles⟩).bind fun result => some _).bind _ = _
  rw [h]
  rfl

theorem run_node_blockMapping {entries : List (Node × Node)} {s : NodeState}
    (h : (blockEntries bound).run ⟨tokens, anchors, handles⟩ = some (entries, s)) :
    (node true indentless (bound + 1)).run ⟨.blockMappingStart :: tokens, anchors, handles⟩ =
      some (.mapping entries, s) := by
  rw [node]
  show (((blockEntries bound).run ⟨tokens, anchors, handles⟩).bind fun result => some _).bind _ = _
  rw [h]
  rfl

end Node

/-! ### Items and entries -/

section Collection

variable {bound : Nat} {others : List Token}

theorem run_blockItems_nil :
    (blockItems (bound + 1)).run ⟨.blockEnd :: tokens, anchors, handles⟩ =
      some ([], ⟨tokens, anchors, handles⟩) := by
  have hend : (Token.blockEnd :: tokens).head? ≠ some .blockEntry := by rintro ⟨⟩
  simp [blockItems, run_take?_of_ne hend, run_expect]

theorem run_blockItems_cons {item : Node} {items : List Node} {s : NodeState}
    (hmarks : tokens.head?.any [Token.blockEntry, .blockEnd].contains = false)
    (hitem : (node true false bound).run ⟨tokens, anchors, handles⟩ =
      some (item, ⟨others, anchors, handles⟩))
    (hitems : (blockItems bound).run ⟨others, anchors, handles⟩ = some (items, s)) :
    (blockItems (bound + 1)).run ⟨.blockEntry :: tokens, anchors, handles⟩ =
      some (item :: items, s) := by
  simp [blockItems, run_take?_self, run_valueUnless hmarks, hitem, hitems]

theorem run_indentlessItems_nil (h : tokens.head? ≠ some .blockEntry) :
    (indentlessItems (bound + 1)).run ⟨tokens, anchors, handles⟩ =
      some ([], ⟨tokens, anchors, handles⟩) := by
  simp [indentlessItems, run_take?_of_ne h]

theorem run_indentlessItems_cons {item : Node} {items : List Node} {s : NodeState}
    (hmarks : tokens.head?.any [Token.blockEntry, .key, .value, .blockEnd].contains = false)
    (hitem : (node true false bound).run ⟨tokens, anchors, handles⟩ =
      some (item, ⟨others, anchors, handles⟩))
    (hitems : (indentlessItems bound).run ⟨others, anchors, handles⟩ = some (items, s)) :
    (indentlessItems (bound + 1)).run ⟨.blockEntry :: tokens, anchors, handles⟩ =
      some (item :: items, s) := by
  simp [indentlessItems, run_take?_self, run_valueUnless hmarks, hitem, hitems]

theorem run_blockEntries_nil :
    (blockEntries (bound + 1)).run ⟨.blockEnd :: tokens, anchors, handles⟩ =
      some ([], ⟨tokens, anchors, handles⟩) := by
  have hend : (Token.blockEnd :: tokens).head? ≠ some .key := by rintro ⟨⟩
  simp [blockEntries, run_take?_of_ne hend, run_expect]

theorem run_blockEntries_cons {style : ScalarStyle} {key : List Char} {value : Node}
    {entries : List (Node × Node)} {s : NodeState}
    (hmarks : tokens.head?.any [Token.key, .value, .blockEnd].contains = false)
    (hvalue : (node true true (bound + 1)).run ⟨tokens, anchors, handles⟩ =
      some (value, ⟨others, anchors, handles⟩))
    (hentries : (blockEntries (bound + 1)).run ⟨others, anchors, handles⟩ = some (entries, s)) :
    (blockEntries (bound + 2)).run
        ⟨.key :: .scalar style key :: .value :: tokens, anchors, handles⟩ =
      some ((.scalar none style key, value) :: entries, s) := by
  have hkey : (Token.scalar style key :: .value :: tokens).head?.any
      [Token.key, .value, .blockEnd].contains = false := rfl
  rw [blockEntries]
  simp only [StateT.run_bind, run_take?_self, Option.bind_eq_bind, Option.bind_some, if_true,
    run_valueUnless hkey, run_node_scalar, run_valueUnless hmarks, hvalue, hentries,
    StateT.run_pure]
  rfl

end Collection

/-! ### Values -/

mutual

/-- The node of a value is read from its tokens. -/
theorem run_node {place : ValuePlace} {indentless : Bool}
    (hindentless : place = .afterKey → indentless = true) {rest : List Token}
    (hrest : place = .afterKey → rest.head? ≠ some .blockEntry) {bound : Nat} :
    (value : Value) → 2 * (value.tokens place).length + 1 ≤ bound →
      (node true indentless bound).run ⟨value.tokens place ++ rest, anchors, handles⟩ =
        some (value.node, ⟨rest, anchors, handles⟩)
  | .text s, hbound => by
    obtain ⟨bound, rfl⟩ := Nat.exists_eq_add_one_of_ne_zero (Nat.ne_zero_of_lt hbound)
    rw [Value.tokens, Value.node]
    exact run_node_scalar true indentless _ _
  | .truth b, hbound => by
    obtain ⟨bound, rfl⟩ := Nat.exists_eq_add_one_of_ne_zero (Nat.ne_zero_of_lt hbound)
    rw [Value.tokens, Value.node]
    exact run_node_scalar true indentless _ _
  | .sequence [], hbound => by
    rw [Scanner.tokens_emptySequence] at hbound ⊢
    obtain ⟨bound, rfl⟩ := Nat.exists_eq_add_of_le'
      (show 2 ≤ bound from Nat.le_trans (by decide) hbound)
    exact run_node_emptySequence true indentless
  | .sequence (item :: items), hbound => by
    obtain ⟨bound, rfl⟩ := Nat.exists_eq_add_one_of_ne_zero (Nat.ne_zero_of_lt hbound)
    cases place with
    | afterKey =>
      rw [Value.tokens, if_neg (by simp)] at hbound ⊢
      have hpos : 0 < (itemTokens (item :: items)).length := by rw [itemTokens]; simp
      have hitems := run_indentlessItems (hrest rfl) (item :: items)
        (show 2 * (itemTokens (item :: items)).length ≤ bound by omega) (by omega)
      rw [hindentless rfl]
      rw [itemTokens] at hitems ⊢
      exact run_node_indentless true hitems
    | afterMark =>
      rw [Value.tokens, if_neg (by simp)] at hbound ⊢
      simp only [List.cons_append, List.length_cons, List.length_append, List.length_nil] at hbound
      rw [List.append_assoc, Value.node]
      exact run_node_blockSequence indentless (run_blockItems (item :: items) (by omega))
  | .mapping [], hbound => by
    rw [Scanner.tokens_emptyMapping] at hbound ⊢
    obtain ⟨bound, rfl⟩ := Nat.exists_eq_add_of_le'
      (show 2 ≤ bound from Nat.le_trans (by decide) hbound)
    exact run_node_emptyMapping true indentless
  | .mapping (entry :: entries), hbound => by
    obtain ⟨bound, rfl⟩ := Nat.exists_eq_add_one_of_ne_zero (Nat.ne_zero_of_lt hbound)
    rw [Value.tokens, if_neg (by simp)] at hbound ⊢
    simp only [List.cons_append, List.length_cons, List.length_append, List.length_nil] at hbound
    rw [List.append_assoc, Value.node]
    exact run_node_blockMapping indentless (run_blockEntries (entry :: entries) (by omega))

/-- The items of a sequence with a block of its own are read from their tokens. -/
theorem run_blockItems {rest : List Token} {bound : Nat} :
    (items : List Value) → 2 * (itemTokens items).length + 1 ≤ bound →
      (blockItems bound).run ⟨itemTokens items ++ .blockEnd :: rest, anchors, handles⟩ =
        some (itemNodes items, ⟨rest, anchors, handles⟩)
  | [], hbound => by
    obtain ⟨bound, rfl⟩ := Nat.exists_eq_add_one_of_ne_zero (Nat.ne_zero_of_lt hbound)
    exact run_blockItems_nil
  | item :: items, hbound => by
    obtain ⟨bound, rfl⟩ := Nat.exists_eq_add_one_of_ne_zero (Nat.ne_zero_of_lt hbound)
    rw [itemTokens, List.cons_append] at hbound ⊢
    simp only [List.length_cons, List.length_append] at hbound
    rw [List.cons_append, List.append_assoc, itemNodes]
    exact run_blockItems_cons (item.head?_tokens _ (by decide) (by rintro ⟨⟩))
      (run_node (by rintro ⟨⟩) (by rintro ⟨⟩) item (by omega)) (run_blockItems items (by omega))

/-- The items of a sequence that opens no block are read from their tokens. -/
theorem run_indentlessItems {rest : List Token} (hrest : rest.head? ≠ some .blockEntry)
    {bound : Nat} :
    (items : List Value) → 2 * (itemTokens items).length ≤ bound → 0 < bound →
      (indentlessItems bound).run ⟨itemTokens items ++ rest, anchors, handles⟩ =
        some (itemNodes items, ⟨rest, anchors, handles⟩)
  | [], _, hpos => by
    obtain ⟨bound, rfl⟩ := Nat.exists_eq_add_one_of_ne_zero (Nat.ne_zero_of_lt hpos)
    exact run_indentlessItems_nil hrest
  | item :: items, hbound, hpos => by
    obtain ⟨bound, rfl⟩ := Nat.exists_eq_add_one_of_ne_zero (Nat.ne_zero_of_lt hpos)
    rw [itemTokens, List.cons_append] at hbound ⊢
    simp only [List.length_cons, List.length_append] at hbound
    rw [List.cons_append, List.append_assoc, itemNodes]
    exact run_indentlessItems_cons (item.head?_tokens _ (by decide) (by rintro ⟨⟩))
      (run_node (by rintro ⟨⟩) (by rintro ⟨⟩) item (by omega))
      (run_indentlessItems hrest items (by omega) (by omega))

/-- The entries of a mapping are read from their tokens. -/
theorem run_blockEntries {rest : List Token} {bound : Nat} :
    (entries : List (List Char × Value)) → 2 * (entryTokens entries).length + 1 ≤ bound →
      (blockEntries bound).run ⟨entryTokens entries ++ .blockEnd :: rest, anchors, handles⟩ =
        some (entryNodes entries, ⟨rest, anchors, handles⟩)
  | [], hbound => by
    obtain ⟨bound, rfl⟩ := Nat.exists_eq_add_one_of_ne_zero (Nat.ne_zero_of_lt hbound)
    exact run_blockEntries_nil
  | (key, value) :: entries, hbound => by
    rw [entryTokens, List.cons_append, List.cons_append, List.cons_append] at hbound ⊢
    simp only [List.length_cons, List.length_append] at hbound
    obtain ⟨bound, rfl⟩ := Nat.exists_eq_add_of_le' (show 2 ≤ bound by omega)
    rw [List.cons_append, List.cons_append, List.cons_append, List.append_assoc, entryNodes]
    exact run_blockEntries_cons
      (value.head?_tokens _ (by decide) (fun _ => by decide))
      (run_node (fun _ => rfl) (fun _ => head?_entryTokens entries rest) value (by omega))
      (run_blockEntries entries (by omega))

end

end NodeReader

theorem NodeReader.run_document (entries : List (List Char × Value)) :
    document.run { tokens := .blockMappingStart :: (entryTokens entries ++ [.blockEnd]) } =
      some (some (Value.mapping entries).node, ⟨[], [], standardHandles⟩) := by
  have hroot : ∀ handles, (node true false (2 * ((entryTokens entries).length + 1 + 1) + 2)).run
      ⟨.blockMappingStart :: (entryTokens entries ++ [.blockEnd]), [], handles⟩ =
        some (.mapping (entryNodes entries), ⟨[], [], handles⟩) :=
    fun handles => run_node_blockMapping false (run_blockEntries entries (by omega))
  simp [document, peek, opensDocument, hroot, Value.node]

/-- The text of a mapping is read as the mapping. -/
theorem parse?_of_entries {entries : List (List Char × Value)} (hne : entries ≠ []) :
    parse? (render entries) = some (some (Value.mapping entries).node) := by
  rw [parse?, scan?_render hne, Option.bind_some, List.cons_append, NodeReader.run_document]
  rfl

end SourceAtlas.Yaml
