import SourceAtlas.Proofs.Graph.Hierarchy
import SourceAtlas.Proofs.Graph.Targets

/-!
# The links of a finished graph

Links are made while some nodes are still unknown, and settled when all are known. A finished graph
has no trace of that: `Graph.LinksSettled` says that each link leads from a node to a node, and that
the links of a file are those of its imports, in their order, each with one link or none. The main
result, `linksSettled_ofDocument`, holds for every document and every disk.

That sources and targets are numbers of nodes is read off the two kinds of links
(`links_ofDocument_cases`): a parent comes before what it holds, and a target is a place that was
found at a path (`target?_eq_some`).
-/

namespace SourceAtlas

open Resolution

/-- All links of a graph of places are settled: each leads from a node to a node, and says so. -/
structure Graph.LinksSettled (graph : Graph) (config : Config) (places : List Place) : Prop where
  nodes_eq : graph.nodes = places.mapIdx fun id place => place.item.node id place.steps.length
  /-- No link dangles. -/
  ends : ∀ link ∈ graph.links, link.source < graph.nodes.length ∧
    ∃ target < graph.nodes.length, link.target = .node target
  /-- The links of imports start at files and are resolved. -/
  dependency : ∀ link ∈ graph.links, link.kind = .dependency → link.isResolved = some true ∧
    ∃ node, graph.nodes[link.source]? = some node ∧ node.isDirectory = false
  hierarchy : ∀ link ∈ graph.links, link.kind = .hierarchy → link.isResolved = none
  /-- The links of imports come in the order of the files, -/
  pairwise_source : graph.dependencies.Pairwise fun a b => a.source ≤ b.source
  /-- and those of one file in the order of its imports. An import has one link or none, and a link
  leads to a node at the path that the import names, or at that path with extensions. -/
  ofFile : ∀ (id : Nat) (place : Place) (file : FileEntry), places[id]? = some place →
    place.item = .file file →
      ∃ target : String → Option Nat,
        (graph.dependencies.filter fun link => link.source = id) =
            file.internalImports.filterMap
              (fun specifier => (target specifier).map (GraphLink.resolved id)) ∧
          ∀ specifier number, target specifier = some number →
            ∃ path, candidate? config file.path.toList specifier.toList = some path ∧
              ∃ other, places[number]? = some other ∧ ∃ tried ∈ path :: extended config path,
                other.path.toList ∈ tried :: extended config tried

section Graph

variable {setting : Setting} {document : Document}

/-- The target of an import is a node at the path that the import names, or at that path with
extensions. -/
theorem target?_eq_some {entry : ImportEntry} {places : List Place} {target : Nat}
    (h : target? setting places entry = some target) :
    ∃ path,
      candidate? setting.config entry.importer.toList entry.specifier.toList = some path ∧
        ∃ place, places[target]? = some place ∧ ∃ tried ∈ path :: extended setting.config path,
          place.path.toList ∈ tried :: extended setting.config tried := by
  rw [target?_eq_bind_settled?] at h
  obtain ⟨path, hpath, hsettled⟩ := Option.bind_eq_some_iff.1 h
  exact ⟨path, hpath, settled?_eq_some hsettled⟩

/-- A link of a graph is one of its hierarchy, or the link of an import to a node. -/
theorem links_ofDocument_cases {link : GraphLink}
    (h : link ∈ (Graph.ofDocument setting document).links) :
    (∃ parent id, parent < id ∧ id < document.places.length ∧ link = .hierarchy parent id) ∨
    ∃ entry ∈ document.imports, ∃ target < document.places.length,
      link = .resolved entry.source target := by
  rcases (mem_links_ofDocument setting document).1 h with
    ⟨id, place, parent, hplace, hparent, rfl⟩ | ⟨entry, hentry, target, htarget, rfl⟩
  · obtain ⟨hpos, hid, hparent⟩ := (hierarchy_mem_links_iff document setting).1 h
    obtain ⟨hlt, -⟩ := document.preordered id hpos hid
    exact .inl ⟨parent, id, hparent ▸ hlt, hid, rfl⟩
  · obtain ⟨-, -, place, hplace, -⟩ := target?_eq_some htarget
    exact .inr ⟨entry, hentry, target, (List.getElem?_eq_some_iff.1 hplace).1, rfl⟩

variable (setting document)

/-- The links that start at a file are those of its imports. -/
theorem filter_dependencies_ofDocument {id : Nat} {place : Place}
    (h : document.places[id]? = some place) :
    ((Graph.ofDocument setting document).dependencies.filter fun link => link.source = id) =
      (place.item.imports id).filterMap fun entry =>
        (target? setting document.places entry).map (GraphLink.resolved entry.source) := by
  rw [dependencies_ofDocument, ← Document.filter_imports h, List.filter_filterMap,
    List.filterMap_filter]
  refine List.filterMap_congr fun entry _ => ?_
  by_cases hsource : entry.source = id <;>
    cases target? setting document.places entry <;> simp [hsource, GraphLink.resolved]

/-- **No link of a finished graph dangles.** -/
theorem linksSettled_ofDocument :
    (Graph.ofDocument setting document).LinksSettled setting.config document.places where
  nodes_eq := nodes_ofDocument setting document
  ends := by
    intro link hlink
    rw [length_nodes_ofDocument]
    rcases links_ofDocument_cases hlink with
      ⟨parent, id, hlt, hid, rfl⟩ | ⟨entry, hentry, target, htarget, rfl⟩
    · exact ⟨hlt.trans hid, id, hid, rfl⟩
    · obtain ⟨place, -, hplace, -⟩ := Document.mem_imports hentry
      exact ⟨(List.getElem?_eq_some_iff.1 hplace).1, target, htarget, rfl⟩
  dependency := by
    intro link hlink hkind
    rcases links_ofDocument_cases hlink with
      ⟨parent, id, -, -, rfl⟩ | ⟨entry, hentry, target, -, rfl⟩
    · cases hkind
    · obtain ⟨place, file, hplace, hitem, -⟩ := Document.mem_imports hentry
      have hnode : (Graph.ofDocument setting document).nodes[entry.source]? =
          some (place.item.node entry.source place.steps.length) := by
        rw [getElem?_nodes_ofDocument, hplace, Option.map_some]
      exact ⟨rfl, _, hnode, by rw [TreeItem.node_isDirectory, hitem]; rfl⟩
  hierarchy := by
    intro link hlink hkind
    rcases links_ofDocument_cases hlink with ⟨parent, id, -, -, rfl⟩ | ⟨entry, -, target, -, rfl⟩
    · rfl
    · cases hkind
  pairwise_source := by
    rw [dependencies_ofDocument, List.pairwise_filterMap]
    refine document.pairwise_imports.imp fun hle a ha b hb => ?_
    obtain ⟨_, -, rfl⟩ := Option.map_eq_some_iff.1 ha
    obtain ⟨_, -, rfl⟩ := Option.map_eq_some_iff.1 hb
    exact hle
  ofFile := by
    intro id place file hplace hitem
    refine ⟨fun specifier => target? setting document.places ⟨id, file.path, specifier⟩, ?_, ?_⟩
    · rw [filter_dependencies_ofDocument setting document hplace, hitem, TreeItem.imports,
        List.filterMap_map]
      rfl
    · intro specifier number htarget
      have hpath := target?_eq_some htarget
      exact hpath

end Graph

end SourceAtlas
