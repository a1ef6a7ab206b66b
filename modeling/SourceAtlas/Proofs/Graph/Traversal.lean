import SourceAtlas.Proofs.Graph.Places

/-!
# The graph of a document, place by place

The nodes and links of a document's graph are made by a recursion over directories that threads a
draft through all visits. Here the recursion is shown to be a fold over the places of the document
(`visitDirectory_eq_foldl`), and the fold is solved (`foldl_visit_eq`): when a place is visited, the
paths of exactly the places up to it are known.

* `target?` is the node that an import leads to after both passes;
* `ofDocument_eq` gives the whole graph, `nodes_ofDocument` its nodes, `dependencies_ofDocument` the
  links of its imports, and `mem_links_ofDocument` says which links there are.
-/

namespace SourceAtlas

open Resolution

namespace Resolution

/-! ### The traversal as a fold -/

/-- The link of an import while the places are visited. -/
def draftLink? (setting : Setting) (known : PathTable) (entry : ImportEntry) : Option GraphLink :=
  (resolve? setting known entry.importer.toList entry.specifier.toList).map
    (dependency known entry.source)

/-- Visits a place. -/
def visit (setting : Setting) (draft : Draft) (place : Place) : Draft :=
  let id := draft.nodes.length
  let draft := draft.addNode (place.item.node id place.steps.length) place.path place.parent
  { draft with
    links := draft.links ++ (place.item.imports id).filterMap (draftLink? setting draft.known) }

@[simp] theorem length_nodes_visit (setting : Setting) (draft : Draft) (place : Place) :
    (visit setting draft place).nodes.length = draft.nodes.length + 1 := by
  simp [visit, Draft.addNode]

theorem length_nodes_foldl_visit (setting : Setting) (draft : Draft) (places : List Place) :
    (places.foldl (visit setting) draft).nodes.length = draft.nodes.length + places.length := by
  induction places generalizing draft with
  | nil => rfl
  | cons place places ih =>
    rw [List.foldl_cons, ih, length_nodes_visit, List.length_cons]
    omega

theorem visitFile_eq_visit (setting : Setting) (parent : Nat) (steps : List Step) (draft : Draft)
    (file : FileEntry) :
    visitFile setting steps.length parent draft file =
      visit setting draft
        { steps, path := file.path, parent := some parent, item := .file file } := by
  simp only [visitFile, visit, importLinks, TreeItem.node, TreeItem.imports, List.filterMap_map]
  rfl

theorem foldl_visitFile (setting : Setting) (parent : Nat) (steps : List Step)
    (files : List FileEntry) (draft : Draft) :
    files.foldl (visitFile setting (steps.length + 1) parent) draft =
      (Directory.placesOfFiles parent steps files).foldl (visit setting) draft := by
  have hvisit (file : FileEntry) (position : Nat) (draft : Draft) :
      visitFile setting (steps.length + 1) parent draft file =
        visit setting draft
          { steps := steps ++ [.file position], path := file.path, parent := some parent
            item := .file file } := by
    rw [← visitFile_eq_visit, List.length_append, List.length_singleton]
  conv_lhs => rw [← List.zipIdx_map_fst 0 files]
  rw [Directory.placesOfFiles, List.mapIdx_eq_zipIdx_map, List.foldl_map, List.foldl_map]
  simp only [← hvisit]

mutual

/-- The recursion over a directory visits its places one after another. -/
theorem visitDirectory_eq_foldl (setting : Setting) (path : String) (steps : List Step)
    (parent : Option Nat) (draft : Draft) : (directory : Directory) →
    visitDirectory setting path steps.length parent draft directory =
      (directory.placesFrom draft.nodes.length parent path steps).foldl (visit setting) draft
  | ⟨name, _, files, directories⟩ => by
    have hvisit : visit setting draft { steps, path, parent, item := .directory name } =
        draft.addNode
          { id := draft.nodes.length, name, isDirectory := true, depth := steps.length }
          path parent := by
      simp [visit, TreeItem.node, TreeItem.imports]
    simp only [visitDirectory, Directory.placesFrom, List.foldl_cons, List.foldl_append]
    rw [← hvisit, visitDirectories_eq_foldl setting path steps, length_nodes_visit]
    exact foldl_visitFile setting _ steps files _

/-- The recursion over subdirectories visits their places one after another. -/
theorem visitDirectories_eq_foldl (setting : Setting) (path : String) (steps : List Step)
    (parent : Nat) (draft : Draft) : (directories : List (String × Directory)) →
    visitDirectories setting path (steps.length + 1) parent draft directories =
      (Directory.placesOfAll draft.nodes.length parent path steps directories).foldl
        (visit setting) draft
  | [] => rfl
  | (key, child) :: rest => by
    have hdepth : steps.length + 1 = (steps ++ [Step.directory key]).length := by simp
    simp only [visitDirectories, Directory.placesOfAll, List.foldl_append]
    rw [visitDirectories_eq_foldl setting path steps parent _ rest, hdepth,
      visitDirectory_eq_foldl setting _ _ _ _ child, length_nodes_foldl_visit]

end

/-! ### The draft of a list of places -/

/-- The nodes of the recorded paths of places, last one first. -/
def table (places : List Place) : PathTable :=
  (places.zipIdx.filterMap fun (place, id) =>
    if place.path.isEmpty then none else some (place.path, id)).reverse

/-- The links that are made when the place with a number is visited. -/
def draftLinks (setting : Setting) (places : List Place) (place : Place) (id : Nat) :
    List GraphLink :=
  (place.parent.map fun parent => GraphLink.hierarchy parent id).toList ++
    (place.item.imports id).filterMap (draftLink? setting (table (places.take (id + 1))))

theorem table_concat (places : List Place) (place : Place) :
    table (places ++ [place]) =
      if place.path.isEmpty then table places else (place.path, places.length) :: table places := by
  simp only [table, List.zipIdx_append, List.filterMap_append, List.reverse_append, Nat.zero_add,
    List.zipIdx_singleton]
  by_cases h : place.path = "" <;> simp [h]

/-- Visiting places from the start gives each its number, and the links that the table of the
places up to it allows. -/
theorem foldl_visit_eq (setting : Setting) (places : List Place) :
    places.foldl (visit setting) {} =
      { known := table places
        nodes := places.mapIdx fun id place => place.item.node id place.steps.length
        links := places.zipIdx.flatMap fun (place, id) => draftLinks setting places place id } := by
  induction places using List.reverseRecOn with
  | nil => rfl
  | append_singleton places place ih =>
    -- the links of earlier places stay, as each of them sees the table up to itself only
    have hlinks : places.zipIdx.flatMap (fun (place, id) => draftLinks setting places place id) =
        places.zipIdx.flatMap
          (fun (q, id) => draftLinks setting (places ++ [place]) q id) := by
      refine List.flatMap_congr fun (q, id) hq => ?_
      have hid : id < places.length := (List.mem_zipIdx' hq).1
      simp only [draftLinks, List.take_append_of_le_length (Nat.succ_le_of_lt hid)]
    rw [List.foldl_append, ih]
    simp only [List.foldl_cons, List.foldl_nil, visit, Draft.addNode, List.length_mapIdx,
      TreeItem.node_id, ← table_concat, List.mapIdx_concat, List.zipIdx_append, List.flatMap_append,
      ← hlinks]
    simp [draftLinks, List.take_of_length_le]

/-! ### Settling the links -/

/-- The node that an import leads to: the one at its resolved path if that has been visited no
later than the importing file, and else the one that the path matches when all nodes are known. -/
def target? (setting : Setting) (places : List Place) (entry : ImportEntry) : Option Nat :=
  let known := table (places.take (entry.source + 1))
  (resolve? setting known entry.importer.toList entry.specifier.toList).bind fun path =>
    (find? known (String.ofList path)).or
      (match? setting.config (table places) (String.ofList path))

end Resolution

/-- The link of an import to the node that it has been matched with. -/
def GraphLink.resolved (source target : Nat) : GraphLink :=
  { source, target := .node target, kind := .dependency, isResolved := some true }

namespace Resolution

theorem settle?_dependency (config : Config) (known full : PathTable) (source : Nat)
    (path : List Char) :
    settle? config full (dependency known source path) =
      ((find? known (String.ofList path)).or (match? config full (String.ofList path))).map
        (GraphLink.resolved source) := by
  cases h : find? known (String.ofList path) with
  | none =>
    simp only [dependency, h, settle?, Option.none_or]
    rfl
  | some target => simp [dependency, h, settle?, GraphLink.resolved]

theorem draftLink?_bind_settle? (setting : Setting) (places : List Place) (entry : ImportEntry) :
    (draftLink? setting (table (places.take (entry.source + 1))) entry).bind
        (settle? setting.config (table places)) =
      (target? setting places entry).map (GraphLink.resolved entry.source) := by
  simp only [draftLink?, target?, Option.bind_map, Option.map_bind]
  congr 1
  funext path
  exact settle?_dependency _ _ _ _ _

/-- Settling the draft links of a place keeps its link of the hierarchy, and gives each of its
imports the link to its target. -/
theorem draftLinks_filterMap_settle? (setting : Setting) (places : List Place) (place : Place)
    (id : Nat) :
    (draftLinks setting places place id).filterMap (settle? setting.config (table places)) =
      (place.parent.map fun parent => GraphLink.hierarchy parent id).toList ++
        (place.item.imports id).filterMap fun entry =>
          (target? setting places entry).map (GraphLink.resolved entry.source) := by
  rw [draftLinks, List.filterMap_append, List.filterMap_filterMap]
  congr 1
  · cases place.parent <;> rfl
  · refine List.filterMap_congr fun entry hentry => ?_
    rw [← draftLink?_bind_settle?, TreeItem.source_of_mem_imports hentry]

end Resolution

/-! ### The kinds of links -/

theorem kind_of_mem_parentLink {parent : Option Nat} {id : Nat} {link : GraphLink}
    (h : link ∈ (parent.map fun parent => GraphLink.hierarchy parent id).toList) :
    link.kind = .hierarchy := by
  rw [Option.mem_toList] at h
  obtain ⟨above, -, rfl⟩ := Option.map_eq_some_iff.1 h
  rfl

theorem kind_of_mem_importLinks {entries : List ImportEntry} {target : ImportEntry → Option Nat}
    {link : GraphLink}
    (h : link ∈ entries.filterMap fun entry =>
      (target entry).map (GraphLink.resolved entry.source)) : link.kind = .dependency := by
  obtain ⟨entry, -, htarget⟩ := List.mem_filterMap.1 h
  obtain ⟨number, -, rfl⟩ := Option.map_eq_some_iff.1 htarget
  rfl

/-! ### The finished graph -/

section Graph

variable (setting : Setting) (document : Document)

theorem ofDocument_eq :
    Graph.ofDocument setting document =
      { nodes := document.places.mapIdx fun id place => place.item.node id place.steps.length
        links := document.places.zipIdx.flatMap fun (place, id) =>
          (place.parent.map fun parent => GraphLink.hierarchy parent id).toList ++
            (place.item.imports id).filterMap fun entry =>
              (target? setting document.places entry).map (GraphLink.resolved entry.source) } := by
  have hdraft : visitDirectory setting "" 0 none {} document.root =
      document.places.foldl (visit setting) {} :=
    visitDirectory_eq_foldl setting "" [] none {} document.root
  -- after the fold the table holds all places, which is what settling the links needs
  rw [Graph.ofDocument, hdraft, foldl_visit_eq]
  simp only [List.filterMap_flatMap, draftLinks_filterMap_settle?]

theorem nodes_ofDocument :
    (Graph.ofDocument setting document).nodes =
      document.places.mapIdx fun id place => place.item.node id place.steps.length := by
  rw [ofDocument_eq]

theorem getElem?_nodes_ofDocument (id : Nat) :
    (Graph.ofDocument setting document).nodes[id]? =
      (document.places[id]?).map fun place => place.item.node id place.steps.length := by
  rw [nodes_ofDocument, List.getElem?_mapIdx]

/-- The imports of a graph have a link each, in their order, if they lead to a node. -/
theorem dependencies_ofDocument :
    (Graph.ofDocument setting document).dependencies =
      document.imports.filterMap fun entry =>
        (target? setting document.places entry).map (GraphLink.resolved entry.source) := by
  have hnone (parent : Option Nat) (id : Nat) :
      ((parent.map fun parent => GraphLink.hierarchy parent id).toList).filter
        GraphLink.isDependency = [] :=
    List.filter_eq_nil_iff.2 fun link h => by
      simp [GraphLink.isDependency, kind_of_mem_parentLink h]
  have hall (entries : List ImportEntry) (target : ImportEntry → Option Nat) :
      (entries.filterMap fun entry =>
        (target entry).map (GraphLink.resolved entry.source)).filter GraphLink.isDependency =
      entries.filterMap fun entry => (target entry).map (GraphLink.resolved entry.source) :=
    List.filter_eq_self.2 fun link h => by
      simp [GraphLink.isDependency, kind_of_mem_importLinks h]
  rw [ofDocument_eq, Graph.dependencies, Document.imports]
  simp only [List.filter_flatMap, List.filter_append, List.filterMap_flatMap, hnone, hall,
    List.nil_append]

/-- The links of a graph are those of its hierarchy and those of its imports. -/
theorem mem_links_ofDocument {link : GraphLink} :
    link ∈ (Graph.ofDocument setting document).links ↔
      (∃ id place parent, document.places[id]? = some place ∧ place.parent = some parent ∧
        link = .hierarchy parent id) ∨
      ∃ entry ∈ document.imports, ∃ target,
        target? setting document.places entry = some target ∧
          link = .resolved entry.source target := by
  rw [ofDocument_eq]
  simp only [Document.imports, List.mem_flatMap, List.mem_append, Option.mem_toList,
    Option.map_eq_some_iff, List.mem_filterMap, Prod.exists, List.mk_mem_zipIdx_iff_getElem?]
  constructor
  · rintro ⟨place, id, hplace, ⟨parent, hparent, rfl⟩ | ⟨entry, hentry, target, htarget, rfl⟩⟩
    · exact .inl ⟨id, place, parent, hplace, hparent, rfl⟩
    · exact .inr ⟨entry, ⟨place, id, hplace, hentry⟩, target, htarget, rfl⟩
  · rintro (⟨id, place, parent, hplace, hparent, rfl⟩ |
      ⟨entry, ⟨place, id, hplace, hentry⟩, target, htarget, rfl⟩)
    · exact ⟨place, id, hplace, .inl ⟨parent, hparent, rfl⟩⟩
    · exact ⟨place, id, hplace, .inr ⟨entry, hentry, target, htarget, rfl⟩⟩

/-- The links of the hierarchy come in the order of the places. -/
theorem hierarchies_ofDocument :
    ((Graph.ofDocument setting document).links.filter fun link => link.kind = .hierarchy) =
      document.places.zipIdx.filterMap fun entry =>
        entry.1.parent.map fun parent => GraphLink.hierarchy parent entry.2 := by
  have hall (parent : Option Nat) (id : Nat) :
      ((parent.map fun parent => GraphLink.hierarchy parent id).toList).filter
        (fun link => link.kind = .hierarchy) =
      (parent.map fun parent => GraphLink.hierarchy parent id).toList :=
    List.filter_eq_self.2 fun link h => by simp [kind_of_mem_parentLink h]
  have hnone (entries : List ImportEntry) (target : ImportEntry → Option Nat) :
      (entries.filterMap fun entry =>
        (target entry).map (GraphLink.resolved entry.source)).filter
          (fun link => link.kind = .hierarchy) = [] :=
    List.filter_eq_nil_iff.2 fun link h => by simp [kind_of_mem_importLinks h]
  rw [ofDocument_eq, List.filterMap_eq_flatMap_toList]
  simp only [List.filter_flatMap, List.filter_append, hall, hnone, List.append_nil]

end Graph

end SourceAtlas
