import SourceAtlas.Proofs.Graph.Hierarchy

/-!
# What a document counts and what its graph counts

A document is walked with the files of a directory before its subdirectories, and its graph is built
with the subdirectories first. Both meet the same items: the items of a tree are its directories and
its files (`Directory.perm_listing`). Whatever is read off the nodes one by one is read off these
items (`map_nodes_ofDocument`), so the counts of the two summaries agree (`summaries_agree`).
-/

namespace SourceAtlas

namespace Directory

theorem walk_eq (directory : Directory) :
    directory.walk = directory :: directory.directories.flatMap fun entry => entry.2.walk := by
  cases directory
  rw [walk, walkAll_eq_flatMap]

theorem map_snd_listingOfAll (directories : List (String × Directory)) :
    (listingOfAll directories).map Prod.snd =
      directories.flatMap fun entry => entry.2.listing.map Prod.snd := by
  induction directories with
  | nil => rfl
  | cons entry rest ih =>
    rw [listingOfAll, List.map_append, List.map_map, List.flatMap_cons, ih]
    rfl

theorem map_snd_listing (directory : Directory) :
    directory.listing.map Prod.snd =
      .directory directory.name ::
        ((directory.directories.flatMap fun entry => entry.2.listing.map Prod.snd) ++
          directory.files.map .file) := by
  obtain ⟨name, path, files, directories⟩ := directory
  have hfiles : (files.mapIdx fun position file => ([Step.file position], TreeItem.file file)).map
      Prod.snd = files.map .file := by
    refine List.ext_getElem? fun position => ?_
    simp [Function.comp_def]
  rw [listing, List.map_cons, List.map_append, map_snd_listingOfAll, hfiles]

/-- The items of a tree are its directories and its files. -/
theorem perm_listing (directory : Directory) :
    (directory.listing.map Prod.snd).Perm
      (directory.walk.map (fun found => .directory found.name) ++ directory.allFiles.map .file) := by
  induction directory using induction_below with
  | step directory ih =>
    have hchildren : (directory.directories.flatMap fun entry => entry.2.listing.map Prod.snd).Perm
        ((directory.directories.flatMap fun entry =>
            entry.2.walk.map fun found => TreeItem.directory found.name) ++
          directory.directories.flatMap fun entry => entry.2.allFiles.map TreeItem.file) := by
      refine .trans ?_ (List.flatMap_append_perm _ _ _).symm
      exact .flatMap_left _ fun entry hentry => ih entry.1 entry.2 hentry
    rw [map_snd_listing, walk_eq, allFiles_eq, List.map_cons, List.map_append, List.map_flatMap,
      List.map_flatMap, List.cons_append]
    refine .cons _ ((hchildren.append_right _).trans ?_)
    rw [List.append_assoc]
    exact .append_left _ List.perm_append_comm

end Directory

theorem Document.perm_items (document : Document) :
    (document.places.map Place.item).Perm
      (document.root.walk.map (fun found => .directory found.name) ++
        document.files.map .file) := by
  have hitems : document.places.map Place.item = document.root.listing.map Prod.snd := by
    rw [← Document.map_places, List.map_map]
    rfl
  rw [hitems]
  exact document.root.perm_listing

/-- The entry of an item that is a file. -/
def TreeItem.file? : TreeItem → Option FileEntry
  | directory _ => none
  | file entry => some entry

/-- The files among the items are the files of the document. -/
theorem Document.perm_files (document : Document) :
    (document.places.filterMap fun place => place.item.file?).Perm document.files := by
  have hperm := document.perm_items.filterMap TreeItem.file?
  rw [List.filterMap_map, List.filterMap_append, List.filterMap_map, List.filterMap_map] at hperm
  simpa [Function.comp_def, TreeItem.file?] using hperm

/-- What the files count together, counted item by item. -/
theorem Document.sum_items (document : Document) (count : FileEntry → Nat) :
    (document.places.map fun place => place.item.file?.elim 0 count).sum =
      (document.files.map count).sum := by
  have hperm := document.perm_items.map fun item => item.file?.elim 0 count
  rw [List.map_map, List.map_append, List.map_map, List.map_map] at hperm
  simpa [Function.comp_def, TreeItem.file?] using hperm.sum_nat

/-- There are as many imports as the files list together. -/
theorem Document.length_imports (document : Document) :
    document.imports.length = (document.files.flatMap FileEntry.internalImports).length := by
  have hitem (id : Nat) (item : TreeItem) :
      (item.imports id).length = item.file?.elim 0 fun file => file.internalImports.length := by
    cases item with
    | directory name => rfl
    | file entry => simp [TreeItem.imports, TreeItem.file?]
  rw [Document.imports, List.length_flatMap, List.length_flatMap, ← document.sum_items]
  simp only [hitem]
  conv_rhs => rw [← List.zipIdx_map_fst 0 document.places, List.map_map]
  rfl

section Graph

variable (setting : Resolution.Setting) (document : Document)

/-- What is read off the nodes, whatever their numbers and depths, is read off the items. -/
theorem map_nodes_ofDocument {β : Type} (ofNode : GraphNode → β) (ofItem : TreeItem → β)
    (h : ∀ id depth item, ofNode (TreeItem.node id depth item) = ofItem item) :
    (Graph.ofDocument setting document).nodes.map ofNode =
      document.places.map fun place => ofItem place.item := by
  rw [nodes_ofDocument]
  refine List.ext_getElem? fun id => ?_
  simp [Function.comp_def, h]

theorem length_nodes_eq :
    (Graph.ofDocument setting document).nodes.length =
      document.root.walk.length + document.files.length := by
  have hlength := document.perm_items.length_eq
  rw [length_nodes_ofDocument]
  simpa using hlength

/-- The nodes of files show the names and the descriptions of the files. -/
theorem perm_fileNodes :
    (((Graph.ofDocument setting document).nodes.filter fun node => !node.isDirectory).map
        fun node => (node.name, node.description)).Perm
      (document.files.map fun file => (file.name, file.description)) := by
  have hnodes := map_nodes_ofDocument setting document
    (fun node => if !node.isDirectory then some (node.name, node.description) else none)
    (fun item => item.file?.map fun file => (file.name, file.description))
    fun _ _ item => by cases item <;> rfl
  have hshown := congrArg (List.filterMap id) hnodes
  have hfiles := document.perm_files.map fun file => (file.name, file.description)
  rw [List.filterMap_map, List.filterMap_map] at hshown
  rw [List.map_filterMap] at hfiles
  rw [← List.filterMap_eq_map, List.filterMap_filter]
  exact hshown ▸ hfiles

theorem length_directoryNodes :
    ((Graph.ofDocument setting document).nodes.filter GraphNode.isDirectory).length =
      document.root.walk.length := by
  have hall := List.length_eq_length_filter_add (l := (Graph.ofDocument setting document).nodes)
    GraphNode.isDirectory
  have hfiles := (perm_fileNodes setting document).length_eq
  rw [List.length_map, List.length_map] at hfiles
  rw [length_nodes_eq, hfiles] at hall
  omega

theorem sum_functions :
    ((Graph.ofDocument setting document).nodes.map fun node => node.functions.getD 0).sum =
      (document.files.flatMap FileEntry.functions).length := by
  have hnodes := map_nodes_ofDocument setting document (fun node => node.functions.getD 0)
    (fun item => item.file?.elim 0 fun file => file.functions.length) fun _ _ item => by
      cases item with
      | directory name => rfl
      | file entry => cases hfunctions : entry.functions <;>
          simp [TreeItem.node, TreeItem.file?, hfunctions]
  rw [hnodes, document.sum_items, List.length_flatMap]

/-- The links of the hierarchy are those that stand for no import. -/
theorem length_hierarchies :
    (Graph.ofDocument setting document).links.length -
        (Graph.ofDocument setting document).dependencies.length =
      document.places.length - 1 := by
  have hkinds : (Graph.ofDocument setting document).links.filter (fun link => !link.isDependency) =
      (Graph.ofDocument setting document).links.filter fun link => link.kind = .hierarchy := by
    refine List.filter_congr fun link _ => ?_
    cases hkind : link.kind <;> simp [GraphLink.isDependency, hkind]
  have hall := List.length_eq_length_filter_add (l := (Graph.ofDocument setting document).links)
    GraphLink.isDependency
  rw [hkinds, hierarchies_eq_range', List.length_map, List.length_range'] at hall
  rw [hall, Graph.dependencies, Nat.add_sub_cancel_left]

/-- **The counts of a document and of its graph agree.** There is a node for the root, for each other
directory and for each file, and a link of the hierarchy for each node but the root. No more imports
have a link than the files list. The nodes of directories, the functions of the nodes and the names and
descriptions of the nodes of files are those of the document. -/
theorem summaries_agree :
    (GraphSummary.of (Graph.ofDocument setting document)).nodes =
        1 + (DocumentSummary.of document).files + (DocumentSummary.of document).directories ∧
      (GraphSummary.of (Graph.ofDocument setting document)).hierarchyLinks =
        (DocumentSummary.of document).files + (DocumentSummary.of document).directories ∧
      (GraphSummary.of (Graph.ofDocument setting document)).dependencyLinks ≤
        (DocumentSummary.of document).internalImports ∧
      ((Graph.ofDocument setting document).nodes.filter GraphNode.isDirectory).length =
        (DocumentSummary.of document).directories + 1 ∧
      ((Graph.ofDocument setting document).nodes.map fun node => node.functions.getD 0).sum =
        (DocumentSummary.of document).functions ∧
      (((Graph.ofDocument setting document).nodes.filter fun node => !node.isDirectory).map
          fun node => (node.name, node.description)).Perm
        (document.files.map fun file => (file.name, file.description)) := by
  have hwalk : 0 < document.root.walk.length := by
    rw [Directory.walk_eq]
    exact Nat.succ_pos _
  have hnodes := length_nodes_eq setting document
  have hplaces := length_nodes_ofDocument document setting
  have hdependencies : (Graph.ofDocument setting document).dependencies.length ≤
      document.imports.length := by
    rw [dependencies_ofDocument]
    exact List.length_filterMap_le _ _
  refine ⟨?_, ?_, ?_, ?_, sum_functions setting document, perm_fileNodes setting document⟩
  · simp only [GraphSummary.of, DocumentSummary.of]
    omega
  · simp only [GraphSummary.of, DocumentSummary.of, length_hierarchies]
    omega
  · rw [document.length_imports] at hdependencies
    exact hdependencies
  · rw [length_directoryNodes]
    simp only [DocumentSummary.of]
    omega

end Graph

end SourceAtlas
