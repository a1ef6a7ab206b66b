import SourceAtlas.Graph.Json
import SourceAtlas.Proofs.Json.Spelling

/-!
# Graphs survive their texts

A graph whose numbers have at most sixty-four bits is read back from both of its texts, the one on
a single line and the one on several lines.
-/

namespace SourceAtlas

/-! ### Records -/

namespace Json

/-- The fields of a record that have a value, under their names. -/
def presentFields (fields : List (String × Option Json)) : List (List Char × Json) :=
  fields.filterMap fun (name, value) => value.map fun v => (name.toList, v)

@[simp] theorem presentFields_none (name : String) (fields : List (String × Option Json)) :
    presentFields ((name, none) :: fields) = presentFields fields := rfl

@[simp] theorem presentFields_some (name : String) (value : Json)
    (fields : List (String × Option Json)) :
    presentFields ((name, some value) :: fields) = (name.toList, value) :: presentFields fields :=
  rfl

/-- The names of present fields are names of fields, in the same order. -/
theorem map_fst_presentFields_sublist (fields : List (String × Option Json)) :
    ((presentFields fields).map Prod.fst).Sublist ((fields.map Prod.fst).map String.toList) := by
  induction fields with
  | nil => exact .slnil
  | cons field fields ih =>
    obtain ⟨name, value⟩ := field
    cases value with
    | none => exact ih.cons _
    | some value => exact ih.cons_cons _

theorem filterMap_eq_map_presentFields (fields : List (String × Option Json)) :
    (fields.filterMap fun (name, value) => value.map fun v => (some name.toList, v)) =
      (presentFields fields).map fun (name, value) => (some name, value) := by
  simp only [presentFields, List.map_filterMap, Option.map_map]
  rfl

/-- Members whose names are all texts are read with these names. -/
theorem mapM_names (members : List (List Char × Json)) :
    (members.map fun (name, value) => (some name, value)).mapM
      (fun (name, value) => name.map fun n => (n, value)) = some members := by
  induction members with
  | nil => rfl
  | cons member others ih => simp_all

theorem filter_presentFields (fields : List (String × Option Json)) :
    (presentFields fields).filter (fun (name, _) =>
      (fields.map Prod.fst).any fun n => n.toList = name) = presentFields fields := by
  refine List.filter_eq_self.2 fun field hfield => ?_
  obtain ⟨name, hname, heq⟩ := List.mem_map.1
    ((map_fst_presentFields_sublist fields).subset (List.mem_map_of_mem hfield))
  exact List.any_eq_true.2 ⟨name, hname, by simpa using heq⟩

/-- The members of a record are read as its fields. -/
theorem fields?_ofFields (fields : List (String × Option Json))
    (hnames : (fields.map Prod.fst).Nodup) :
    fields? (fields.map Prod.fst) (ofFields fields) = some (presentFields fields) := by
  have hnodup : ((presentFields fields).map Prod.fst).Nodup :=
    (hnames.map fun _ _ h => String.toList_injective h).sublist
      (map_fst_presentFields_sublist fields)
  simp only [fields?, ofFields, filterMap_eq_map_presentFields, mapM_names, Option.bind_eq_bind,
    Option.bind_some, filter_presentFields, if_pos hnodup]

/-- A field of a record is found under its name. -/
theorem field?_presentFields {fields : List (String × Option Json)} {name : String}
    {value : Option Json} (hnames : (fields.map Prod.fst).Nodup) (h : (name, value) ∈ fields) :
    field? (presentFields fields) name = value := by
  induction fields with
  | nil => cases h
  | cons field fields ih =>
    obtain ⟨first, found⟩ := field
    obtain ⟨hfirst, hnames⟩ := List.nodup_cons.1 hnames
    rcases List.mem_cons.1 h with heq | hmem
    · cases heq
      cases value with
      | some v => simp [field?]
      | none =>
        -- no later field has the name, so nothing is found
        rw [presentFields_none, field?, Option.map_eq_none_iff, List.find?_eq_none]
        intro field hfield heq
        obtain ⟨other, hother, hsame⟩ := List.mem_map.1
          ((map_fst_presentFields_sublist fields).subset (List.mem_map_of_mem hfield))
        rw [decide_eq_true_eq, ← hsame] at heq
        exact hfirst (String.toList_injective heq ▸ hother)
    · have hne : first ≠ name := by
        rintro rfl
        exact hfirst (List.mem_map.2 ⟨_, hmem, rfl⟩)
      have hrest := ih hnames hmem
      cases found with
      | none => exact hrest
      | some v =>
        have hskip : ¬ first.toList = name.toList := fun h => hne (String.toList_injective h)
        rwa [presentFields_some, field?, List.find?_cons_of_neg (by simpa using hskip)]

/-- What the reader of a record finds in its value: each field under its name. -/
theorem exists_fields? {value : Json} (names : List String) {fields : List (String × Option Json)}
    (hvalue : value = ofFields fields) (hfields : fields.map Prod.fst = names)
    (hnames : names.Nodup) :
    ∃ found, fields? names value = some found ∧
      ∀ name field, (name, field) ∈ fields → field? found name = field := by
  subst hvalue hfields
  exact ⟨_, fields?_ofFields fields hnames, fun _ _ h => field?_presentFields hnames h⟩

theorem definite_ofFields {fields : List (String × Option Json)}
    (h : ∀ field ∈ fields, ∀ value ∈ field.2, Definite value) : Definite (ofFields fields) := by
  induction fields with
  | nil => trivial
  | cons field fields ih =>
    obtain ⟨name, value⟩ := field
    have hothers := ih fun field hfield => h field (by simp [hfield])
    cases value with
    | none => exact hothers
    | some value => exact ⟨rfl, h (name, some value) (by simp) value rfl, hothers⟩

theorem definite_array {α : Type} {item : α → Json} {items : List α}
    (h : ∀ x ∈ items, Definite (item x)) : Definite (.array (items.map item)) := by
  induction items with
  | nil => trivial
  | cons x items ih => exact ⟨h x (by simp), ih fun y hy => h y (by simp [hy])⟩

end Json

/-! ### Numbers that fit -/

/-- Whether a number has at most sixty-four bits. -/
def Json.IsWord (n : Nat) : Prop := n < Nat.pow 2 64

/-- Whether all numbers of a node have at most sixty-four bits. -/
def GraphNode.FitsWord (node : GraphNode) : Prop :=
  Json.IsWord node.id ∧ Json.IsWord node.depth ∧
    ∀ n ∈ node.functions, Json.IsWord n

/-- Whether the number of a target has at most sixty-four bits. -/
def LinkTarget.FitsWord : LinkTarget → Prop
  | node id => Json.IsWord id
  | pending _ => True

/-- Whether all numbers of a link have at most sixty-four bits. -/
def GraphLink.FitsWord (link : GraphLink) : Prop :=
  Json.IsWord link.source ∧ link.target.FitsWord

/-- Whether all numbers of a graph have at most sixty-four bits. -/
def Graph.FitsWord (graph : Graph) : Prop :=
  (∀ node ∈ graph.nodes, node.FitsWord) ∧ ∀ link ∈ graph.links, link.FitsWord

open Json

theorem Json.toNat?_natural {n : Nat} (h : IsWord n) : toNat? (.natural n) = some n :=
  if_pos h

theorem Json.toString?_ofString (s : String) : toString? (ofString s) = some s := by
  simp [toString?, ofString]

/-- An optional value is read back if its value is, and is not null. -/
theorem Json.optional?_map {α : Type} (decode : Json → Option α) (encode : α → Json)
    (value : Option α) (hnull : ∀ a ∈ value, encode a ≠ .null)
    (h : ∀ a ∈ value, decode (encode a) = some a) :
    optional? decode (value.map encode) = some value := by
  cases value with
  | none => rfl
  | some a =>
    have hnull := hnull a rfl
    simp [optional?, h a rfl]

theorem GraphNode.ofJson?_toJson {node : GraphNode} (h : node.FitsWord) :
    GraphNode.ofJson? node.toJson = some node := by
  obtain ⟨hid, hdepth, hfunctions⟩ := h
  obtain ⟨found, hfound, hfield⟩ := exists_fields?
    ["id", "name", "isDirectory", "depth", "description", "functions"]
    (rfl : node.toJson = ofFields _) rfl (by decide)
  have hdescription := optional?_map toString? ofString node.description (by simp [ofString])
    fun s _ => toString?_ofString s
  have hcount := optional?_map toNat? .natural node.functions (by simp)
    fun n hn => toNat?_natural (hfunctions n hn)
  simp [ofJson?, hfound, hfield "id" (some (.natural node.id)) (by simp),
    hfield "name" (some (ofString node.name)) (by simp),
    hfield "isDirectory" (some (.truth node.isDirectory)) (by simp),
    hfield "depth" (some (.natural node.depth)) (by simp),
    hfield "description" (node.description.map ofString) (by simp),
    hfield "functions" (node.functions.map .natural) (by simp),
    toNat?_natural hid, toNat?_natural hdepth, toString?_ofString, hdescription, hcount, toBool?]

theorem LinkKind.ofJson?_name (kind : LinkKind) :
    LinkKind.ofJson? (ofString kind.name) = some kind := by
  cases kind <;> decide

theorem LinkTarget.ofJson?_toJson {target : LinkTarget} (h : target.FitsWord) :
    LinkTarget.ofJson? target.toJson = some target := by
  cases target with
  | node id => simp [toJson, ofJson?, toNat?_natural h]
  | pending path => simp [toJson, ofJson?, ofString]

theorem GraphLink.ofJson?_toJson {link : GraphLink} (h : link.FitsWord) :
    GraphLink.ofJson? link.toJson = some link := by
  obtain ⟨hsource, htarget⟩ := h
  obtain ⟨found, hfound, hfield⟩ := exists_fields? ["source", "target", "type", "isResolved"]
    (rfl : link.toJson = ofFields _) rfl (by decide)
  have hresolved := optional?_map toBool? .truth link.isResolved (by simp) fun _ _ => rfl
  simp [ofJson?, hfound, hfield "source" (some (.natural link.source)) (by simp),
    hfield "target" (some link.target.toJson) (by simp),
    hfield "type" (some (ofString link.kind.name)) (by simp),
    hfield "isResolved" (link.isResolved.map .truth) (by simp),
    toNat?_natural hsource, LinkTarget.ofJson?_toJson htarget, LinkKind.ofJson?_name, hresolved]

/-- A list is read back if each of its items is. -/
theorem Json.mapM_map {α : Type} {encode : α → Json} {decode : Json → Option α} {items : List α}
    (h : ∀ x ∈ items, decode (encode x) = some x) : (items.map encode).mapM decode = some items := by
  induction items with
  | nil => rfl
  | cons x items ih => simp [h x (by simp), ih fun y hy => h y (by simp [hy])]

theorem Graph.ofJson?_toJson {graph : Graph} (h : graph.FitsWord) :
    Graph.ofJson? graph.toJson = some graph := by
  obtain ⟨hnodes, hlinks⟩ := h
  obtain ⟨found, hfound, hfield⟩ := exists_fields? ["nodes", "links"]
    (rfl : graph.toJson = ofFields _) rfl (by decide)
  have hreadNodes := mapM_map fun node hnode => GraphNode.ofJson?_toJson (hnodes node hnode)
  have hreadLinks := mapM_map fun link hlink => GraphLink.ofJson?_toJson (hlinks link hlink)
  simp [ofJson?, hfound,
    hfield "nodes" (some (.array (graph.nodes.map GraphNode.toJson))) (by simp),
    hfield "links" (some (.array (graph.links.map GraphLink.toJson))) (by simp),
    toList?, hreadNodes, hreadLinks]

theorem LinkTarget.definite_toJson (target : LinkTarget) : Definite target.toJson := by
  cases target <;> trivial

theorem GraphNode.definite_toJson (node : GraphNode) : Definite node.toJson := by
  apply definite_ofFields
  simp [Definite, ofString]

theorem GraphLink.definite_toJson (link : GraphLink) : Definite link.toJson := by
  apply definite_ofFields
  have hresolved : ∀ value ∈ link.isResolved.map Json.truth, Definite value := by
    cases link.isResolved <;> simp [Definite]
  simpa [Definite, ofString, LinkTarget.definite_toJson] using hresolved

theorem Graph.definite_toJson (graph : Graph) : Definite graph.toJson := by
  have hnodes : Definite (.array (graph.nodes.map GraphNode.toJson)) :=
    definite_array fun node _ => node.definite_toJson
  have hlinks : Definite (.array (graph.links.map GraphLink.toJson)) :=
    definite_array fun link _ => link.definite_toJson
  apply definite_ofFields
  simp [hnodes, hlinks]

/-- **A graph survives its texts.** If no number of a graph takes more than sixty-four bits, the
graph is read back from its text on one line and from its text on several lines. -/
theorem Graph.parse?_render (graph : Graph) (h : graph.FitsWord) (spread : Bool) :
    Graph.parse? (graph.render spread) = some graph := by
  have hdefinite := graph.definite_toJson
  have hspells : Spells graph.toJson (graph.render spread).toList := by
    cases spread with
    | false => simpa [render] using spells_compact graph.toJson hdefinite
    | true => simpa [render] using spells_pretty 0 graph.toJson hdefinite
  rw [Graph.parse?, parse?_of_spells hspells, Option.bind_some, Graph.ofJson?_toJson h]

/-- A graph with a path that was not matched, with quotes, a backslash, control characters and a
character beyond the first plane in its texts, and with the largest number that fits. -/
def awkwardGraph : Graph :=
  { nodes :=
      [{ id := 0, name := "a\"b\\c", isDirectory := true, depth := 0 },
        { id := 18446744073709551615, name := "\n\x01\x1f\x7f", isDirectory := false, depth := 10
          description := some "", functions := some 3 }]
    links :=
      [.hierarchy 0 18446744073709551615,
        { source := 1, target := .pending "18446744073709551615", kind := .dependency
          isResolved := some false },
        { source := 1, target := .pending "😀", kind := .dependency }] }

theorem Graph.parse?_render_awkwardGraph :
    awkwardGraph.FitsWord ∧ Graph.parse? (awkwardGraph.render false) = some awkwardGraph ∧
      Graph.parse? (awkwardGraph.render true) = some awkwardGraph := by
  have hfits : awkwardGraph.FitsWord := by
    simp [Graph.FitsWord, awkwardGraph, GraphNode.FitsWord, GraphLink.FitsWord,
      LinkTarget.FitsWord, Json.IsWord, GraphLink.hierarchy]
  exact ⟨hfits, awkwardGraph.parse?_render hfits false, awkwardGraph.parse?_render hfits true⟩

end SourceAtlas
