import SourceAtlas.Document.Yaml
import SourceAtlas.Proofs.Yaml.Nodes
import SourceAtlas.Yaml.Decode

/-!
# Records read from the nodes of values

A decoder that is run on the node of a value needs neither anchors nor aliases, so the results say
which value is returned at once. A record is read as the fields that have a value, and lists and
records only within the nesting that is allowed.
-/

namespace SourceAtlas.Yaml

/-! ### Nesting -/

mutual

/-- The number of collections that are nested in a value. -/
def Value.depth : Value → Nat
  | .text _ => 0
  | .truth _ => 0
  | .sequence items => itemsDepth items + 1
  | .mapping entries => entriesDepth entries + 1

/-- The largest number of collections that are nested in an item. -/
def itemsDepth : List Value → Nat
  | [] => 0
  | item :: items => max item.depth (itemsDepth items)

/-- The largest number of collections that are nested in the value of an entry. -/
def entriesDepth : List (List Char × Value) → Nat
  | [] => 0
  | (_, value) :: entries => max value.depth (entriesDepth entries)

end

theorem depth_le_entriesDepth {key : List Char} {value : Value}
    {entries : List (List Char × Value)} (h : (key, value) ∈ entries) :
    value.depth ≤ entriesDepth entries := by
  induction entries with
  | nil => cases h
  | cons entry entries ih =>
    rw [entriesDepth]
    rcases List.mem_cons.1 h with rfl | h
    · exact Nat.le_max_left _ _
    · exact Nat.le_trans (ih h) (Nat.le_max_right _ _)

/-- The values under the names of a record lie one level below it. -/
theorem depth_of_ofFields {fields : List (String × Option Value)} {depth : Nat}
    (h : (Value.ofFields fields).depth ≤ depth) :
    ∃ below, depth = below + 1 ∧
      ∀ name value, (name, some value) ∈ fields → value.depth ≤ below := by
  rw [Value.ofFields, Value.depth] at h
  obtain ⟨below, rfl⟩ := Nat.exists_eq_add_one_of_ne_zero (Nat.ne_zero_of_lt h)
  refine ⟨below, rfl, fun name value hmem => ?_⟩
  refine Nat.le_trans (@depth_le_entriesDepth name.toList _ _ ?_) (Nat.le_of_succ_le_succ h)
  exact List.mem_filterMap.2 ⟨(name, some value), hmem, rfl⟩

namespace Decode

/-! ### Scalars -/

theorem target_node (value : Value) : target value.node = pure value.node := by
  cases value <;> rfl

theorem text_scalar (tag : Option (List Char)) (style : ScalarStyle) (s : List Char) :
    text (.scalar tag style s) = pure s := rfl

theorem string_ofString (s : String) : string (Value.ofString s).node = pure s := by
  rw [string, Value.ofString, Value.node, text_scalar, pure_bind, String.ofList_toList]

/-- A text that is written plainly does not stand for null. -/
theorem string?_ofString (s : String) : string? (Value.ofString s).node = pure (some s) := by
  rw [string?, target_node, pure_bind, Value.ofString, Value.node]
  rcases styleOf_cases s.toList with ⟨hstyle, htyped, -⟩ | ⟨hstyle, -⟩ | ⟨hstyle, -⟩ | hstyle
  · simp only [isTyped, Bool.or_eq_false_iff] at htyped
    rw [hstyle]
    simp [htyped.1.1.1.1]
  all_goals
    rw [hstyle]
    simp

/-! ### Lists -/

theorem items_node (values : List Value) (depth : Nat) :
    items (depth + 1) (Value.sequence values).node = pure (depth, itemNodes values) := by
  rw [items, target_node, pure_bind]
  rfl

theorem entries_node (values : List (List Char × Value)) (depth : Nat) :
    entries (depth + 1) (Value.mapping values).node = pure (depth, entryNodes values) := by
  rw [entries, target_node, pure_bind]
  rfl

theorem list_node {α : Type} {decode : Nat → Node → Decode α} {item : α → Value} {xs : List α}
    (hitem : ∀ x ∈ xs, ∀ depth, (item x).depth ≤ depth → decode depth (item x).node = pure x)
    {depth : Nat} (hdepth : (Value.sequence (xs.map item)).depth ≤ depth) :
    list decode depth (Value.sequence (xs.map item)).node = pure xs := by
  rw [Value.depth] at hdepth
  obtain ⟨below, rfl⟩ := Nat.exists_eq_add_one_of_ne_zero (Nat.ne_zero_of_lt hdepth)
  rw [list, items_node, pure_bind]
  show (itemNodes (xs.map item)).mapM (decode below) = pure xs
  have hbelow := Nat.le_of_succ_le_succ hdepth
  induction xs with
  | nil => rfl
  | cons x xs ih =>
    rw [List.map_cons, itemsDepth, Nat.max_le] at hbelow
    rw [List.map_cons, itemNodes, List.mapM_cons, hitem x (by simp) below hbelow.1, pure_bind,
      ih (fun y hy => hitem y (by simp [hy])) (Nat.succ_le_succ hbelow.2) hbelow.2]
    rfl

/-! ### Fields -/

/-- The nodes of the fields of a record that have a value. -/
def nodesOf (record : List (String × Option Value)) : Fields :=
  record.filterMap fun (name, value) => value.map fun v => (name.toList, v.node)

theorem nodesOf_some (name : String) (value : Value) (record : List (String × Option Value)) :
    nodesOf ((name, some value) :: record) = (name.toList, value.node) :: nodesOf record := rfl

/-- The keys of a record are read as the names of its fields. -/
theorem mapM_text_entryNodes (record : List (String × Option Value)) :
    ((entryNodes (record.filterMap fun (name, value) =>
      value.map fun v => (name.toList, v))).mapM fun (key, value) => do
        return (← text key, value) : Decode Fields) = pure (nodesOf record) := by
  induction record with
  | nil => rfl
  | cons field record ih =>
    obtain ⟨name, value⟩ := field
    cases value with
    | none => exact ih
    | some value =>
      show ((_ :: entryNodes _).mapM _ : Decode Fields) = _
      rw [List.mapM_cons, ih]
      rfl

theorem fields_ofFields (record : List (String × Option Value)) (depth : Nat) :
    fields (depth + 1) (Value.ofFields record).node = pure (depth, nodesOf record) := by
  rw [fields, Value.ofFields, entries_node, pure_bind]
  exact congrArg (fun reader : Decode Fields => reader >>= fun found => pure (depth, found))
    (mapM_text_entryNodes record)

/-- The nodes under a name are those of the field with that name. -/
theorem filter_nodesOf {record : List (String × Option Value)} {name : String}
    {value : Option Value} (hnames : (record.map Prod.fst).Nodup) (h : (name, value) ∈ record) :
    ((nodesOf record).filter fun (key, _) => key = name.toList) =
      (value.map fun v => (name.toList, v.node)).toList := by
  induction record with
  | nil => cases h
  | cons field record ih =>
    obtain ⟨first, found⟩ := field
    obtain ⟨hfirst, hnames⟩ := List.nodup_cons.1 hnames
    rcases List.mem_cons.1 h with heq | hmem
    · cases heq
      -- No later field has the name.
      have hothers : ((nodesOf record).filter fun (key, _) => key = name.toList) = [] := by
        refine List.filter_eq_nil_iff.2 fun entry hentry hkey => ?_
        obtain ⟨⟨other, node⟩, hother, hsome⟩ := List.mem_filterMap.1 hentry
        obtain ⟨v, -, rfl⟩ := Option.map_eq_some_iff.1 hsome
        have hsame : other = name := String.toList_injective (by simpa using hkey)
        exact hfirst (List.mem_map.2 ⟨_, hother, hsame⟩)
      cases value with
      | none => exact hothers
      | some v =>
        rw [nodesOf_some, List.filter_cons_of_pos (by simp), hothers]
        rfl
    · have hne : first ≠ name := by
        rintro rfl
        exact hfirst (List.mem_map.2 ⟨_, hmem, rfl⟩)
      have hrest := ih hnames hmem
      cases found with
      | none => exact hrest
      | some v =>
        have hskip : ¬ first.toList = name.toList := fun h => hne (String.toList_injective h)
        rwa [nodesOf_some, List.filter_cons_of_neg (by simpa using hskip)]

theorem field?_nodesOf {record : List (String × Option Value)} {name : String}
    {value : Option Value} (hnames : (record.map Prod.fst).Nodup) (h : (name, value) ∈ record) :
    field? (nodesOf record) name = pure (value.map Value.node) := by
  rw [field?, filter_nodesOf hnames h]
  cases value <;> rfl

/-- What the reader of a record finds in its value: each field under its name, one level below. -/
structure Finds (record : List (String × Option Value)) (found : Fields) (below : Nat) : Prop where
  field : ∀ name value, (name, value) ∈ record →
    field? found name = pure (value.map Value.node)
  depth : ∀ name value, (name, some value) ∈ record → value.depth ≤ below

theorem exists_fields {value : Value} {record : List (String × Option Value)}
    (hvalue : value = Value.ofFields record) (hnames : (record.map Prod.fst).Nodup) {depth : Nat}
    (hdepth : value.depth ≤ depth) :
    ∃ found below, depth = below + 1 ∧ fields depth value.node = pure (below, found) ∧
      Finds record found below := by
  subst hvalue
  obtain ⟨below, rfl, hbelow⟩ := depth_of_ofFields hdepth
  exact ⟨_, below, rfl, fields_ofFields record below,
    fun _ _ h => field?_nodesOf hnames h, hbelow⟩

namespace Finds

variable {record : List (String × Option Value)} {found : Fields} {below : Nat}

theorem required_string (h : Finds record found below) (name s : String)
    (hmem : (name, some (Value.ofString s)) ∈ record) :
    required found name string = pure s := by
  rw [required, h.field _ _ hmem, pure_bind]
  exact string_ofString s

theorem required_value {α : Type} (h : Finds record found below) (name : String) (value : Value)
    (hmem : (name, some value) ∈ record) {decode : Node → Decode α} {x : α}
    (hdecode : value.depth ≤ below → decode value.node = pure x) :
    required found name decode = pure x := by
  rw [required, h.field _ _ hmem, pure_bind]
  exact hdecode (h.depth _ _ hmem)

theorem optional_value {α : Type} (h : Finds record found below) (name : String)
    (value : Option Value) (hmem : (name, value) ∈ record) {decode : Node → Decode α}
    {missing x : α} (hnone : value = none → missing = x)
    (hdecode : ∀ v, value = some v → v.depth ≤ below → decode v.node = pure x) :
    optional found name missing decode = pure x := by
  rw [optional, h.field _ _ hmem, pure_bind]
  cases value with
  | none => exact congrArg pure (hnone rfl)
  | some v => exact hdecode v rfl (h.depth _ _ hmem)

theorem optional_string (h : Finds record found below) (name : String) (s : Option String)
    (hmem : (name, s.map Value.ofString) ∈ record) :
    optional found name none string? = pure s := by
  refine h.optional_value name _ hmem ?_ ?_
  · intro hnone
    exact (Option.map_eq_none_iff.1 hnone).symm
  · intro v hv _
    obtain ⟨text, rfl, rfl⟩ := Option.map_eq_some_iff.1 hv
    exact string?_ofString text

theorem optional_list {α : Type} (h : Finds record found below) (name : String)
    {decode : Nat → Node → Decode α} (item : α → Value) (xs : List α)
    (hmem : (name, Value.ofList? item xs) ∈ record)
    (hitem : ∀ x ∈ xs, ∀ depth, (item x).depth ≤ depth → decode depth (item x).node = pure x) :
    optional found name [] (list decode below) = pure xs := by
  refine h.optional_value name _ hmem ?_ ?_
  · intro hnone
    cases xs with
    | nil => rfl
    | cons x xs => cases hnone
  · intro v hv hdepth
    cases xs with
    | nil => cases hv
    | cons x xs =>
      cases hv
      exact list_node hitem hdepth

end Finds

/-- A value that is decoded from the node of a mapping is read from the text of the mapping. -/
theorem run?_of_entries {α : Type} {decoder : Node → Decode α}
    {values : List (List Char × Value)} (hne : values ≠ []) {x : α}
    (h : decoder (Value.mapping values).node = pure x) :
    run? decoder (render values) = some x := by
  rw [run?, parse?_of_entries hne]
  show (((decoder (Value.mapping values).node).run _).run _).map Prod.fst = _
  rw [h]
  rfl

end Decode

end SourceAtlas.Yaml
