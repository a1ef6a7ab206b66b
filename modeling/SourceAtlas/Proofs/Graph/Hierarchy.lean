import SourceAtlas.Proofs.Graph.Traversal

/-!
# The hierarchy of a graph is the tree of its document

`Directory.listing` lists a tree in pre-order: a directory, then its subdirectories with all that
is below them, then its files. Three facts about the places of a document give the shape of the
graph:

* they are the items of the listing (`Document.map_places`), which come in the lexicographic order
  of the steps that lead to them if subdirectories are kept by key (`pairwise_placesFrom`);
* each place but the first hangs below an earlier one, and nothing in between is nearer to the root
  (`Hangs`, `exists_hangs_placesFrom`);
* so the descendants of a number are a block directly after it (`Preordered.exists_block`).

`Graph.ShowsTree` collects what it means that a graph shows a tree, and `showsTree_ofDocument` says
that every graph shows the tree of its document.
-/

namespace SourceAtlas

/-! ### Listing a tree -/

mutual

/-- The items of a directory in pre-order, each with the steps that lead to it: the directory
itself, its subdirectories with all that is below them, then its files. -/
def Directory.listing : Directory → List (List Step × TreeItem)
  | ⟨name, _, files, directories⟩ =>
    ([], .directory name) ::
      (listingOfAll directories ++
        files.mapIdx fun position file => ([.file position], .file file))

/-- The items of subdirectories, one subdirectory after another. -/
def Directory.listingOfAll : List (String × Directory) → List (List Step × TreeItem)
  | [] => []
  | (key, child) :: rest =>
    child.listing.map (fun entry => (.directory key :: entry.1, entry.2)) ++ listingOfAll rest

end

namespace Directory

theorem map_placesOfFiles (parent : Nat) (steps : List Step) (files : List FileEntry) :
    (placesOfFiles parent steps files).map (fun place => (place.steps, place.item)) =
      (files.mapIdx fun position file => ([Step.file position], TreeItem.file file)).map
        fun entry => (steps ++ entry.1, entry.2) := by
  rw [placesOfFiles, List.mapIdx_eq_zipIdx_map, List.mapIdx_eq_zipIdx_map, List.map_map,
    List.map_map]
  rfl

mutual

/-- The places of a directory are its items below the steps that lead to it. -/
theorem map_placesFrom (first : Nat) (parent : Option Nat) (path : String) (steps : List Step) :
    (directory : Directory) →
    (directory.placesFrom first parent path steps).map (fun place => (place.steps, place.item)) =
      directory.listing.map fun entry => (steps ++ entry.1, entry.2)
  | ⟨name, root, files, directories⟩ => by
    rw [placesFrom, listing, List.map_cons, List.map_cons, List.map_append, List.map_append,
      map_placesOfAll, map_placesOfFiles, List.append_nil]

theorem map_placesOfAll (first parent : Nat) (path : String) (steps : List Step) :
    (directories : List (String × Directory)) →
    (placesOfAll first parent path steps directories).map (fun place => (place.steps, place.item)) =
      (listingOfAll directories).map fun entry => (steps ++ entry.1, entry.2)
  | [] => rfl
  | (key, child) :: others => by
    rw [placesOfAll, listingOfAll, List.map_append, List.map_append, map_placesOfAll,
      map_placesFrom, List.map_map]
    simp only [Function.comp_def, List.append_assoc, List.singleton_append]

end

end Directory

theorem Document.map_places (document : Document) :
    document.places.map (fun place => (place.steps, place.item)) = document.root.listing := by
  rw [Document.places, Directory.map_placesFrom]
  simp only [List.nil_append, Prod.mk.eta, List.map_id']

/-! ### The order of the places -/

/-- Subdirectories come in the order of their keys, and before files. -/
inductive Step.Before : Step → Step → Prop
  | directories {key key' : String} (h : key < key') : Before (.directory key) (.directory key')
  | directory_file (key : String) (position : Nat) : Before (.directory key) (.file position)
  | files {m n : Nat} (h : m < n) : Before (.file m) (.file n)

mutual

/-- The subdirectories of a directory, and of all directories below it, are kept in the order of
their keys, each key once. -/
def Directory.Ordered : Directory → Prop
  | ⟨_, _, _, directories⟩ =>
    (directories.map Prod.fst).Pairwise (· < ·) ∧ OrderedAll directories

/-- All of the directories are ordered. -/
def Directory.OrderedAll : List (String × Directory) → Prop
  | [] => True
  | (_, child) :: rest => child.Ordered ∧ OrderedAll rest

end

namespace Directory

theorem pairwise_placesOfFiles (parent : Nat) (steps : List Step) (files : List FileEntry) :
    (placesOfFiles parent steps files).Pairwise
      fun a b => List.Lex Step.Before a.steps b.steps := by
  refine List.pairwise_iff_getElem.2 fun i j hi hj hij => ?_
  simp only [placesOfFiles, List.getElem_mapIdx]
  exact List.Lex.append_left _ (.rel (.files hij)) steps

mutual

/-- The places of an ordered directory come in pre-order: what leads to a place comes before it,
and at each branching the subdirectories, in the order of their keys, come before the files. -/
theorem pairwise_placesFrom (first : Nat) (parent : Option Nat) (path : String)
    (steps : List Step) : (directory : Directory) → directory.Ordered →
    (directory.placesFrom first parent path steps).Pairwise
      fun a b => List.Lex Step.Before a.steps b.steps
  | ⟨name, root, files, directories⟩, ⟨hkeys, hall⟩ => by
    have hsub {place : Place} (h : place ∈ placesOfAll (first + 1) first path steps directories) :
        ∃ key rest, place.steps = steps ++ .directory key :: rest := by
      obtain ⟨key, -, rest, -, hsteps, -⟩ := holds_of_mem_placesOfAll _ _ _ _ _ h
      exact ⟨key, rest, hsteps⟩
    rw [placesFrom, List.pairwise_cons, List.pairwise_append]
    refine ⟨fun place hplace => ?_, pairwise_placesOfAll _ _ _ _ directories hkeys hall,
      pairwise_placesOfFiles _ _ _, fun a ha b hb => ?_⟩
    · obtain ⟨step, rest, hsteps⟩ : ∃ step rest, place.steps = steps ++ step :: rest := by
        rcases List.mem_append.1 hplace with h | h
        · obtain ⟨key, rest, hsteps⟩ := hsub h
          exact ⟨_, rest, hsteps⟩
        · obtain ⟨position, file, -, rfl⟩ := mem_placesOfFiles.1 h
          exact ⟨_, [], rfl⟩
      rw [hsteps]
      simpa using List.Lex.append_left Step.Before (.nil : List.Lex _ [] (step :: rest)) steps
    · obtain ⟨key, rest, hsteps⟩ := hsub ha
      obtain ⟨position, file, -, rfl⟩ := mem_placesOfFiles.1 hb
      rw [hsteps]
      exact List.Lex.append_left _ (.rel (.directory_file key position)) steps

theorem pairwise_placesOfAll (first parent : Nat) (path : String) (steps : List Step) :
    (directories : List (String × Directory)) → (directories.map Prod.fst).Pairwise (· < ·) →
    OrderedAll directories → (placesOfAll first parent path steps directories).Pairwise
      fun a b => List.Lex Step.Before a.steps b.steps
  | [], _, _ => by simp [placesOfAll]
  | (key, child) :: others, hkeys, ⟨hchild, hothers⟩ => by
    obtain ⟨hkey, hkeys⟩ := List.pairwise_cons.1 hkeys
    rw [placesOfAll, List.pairwise_append]
    refine ⟨pairwise_placesFrom _ _ _ _ child hchild,
      pairwise_placesOfAll _ _ _ _ others hkeys hothers, fun a ha b hb => ?_⟩
    obtain ⟨rest, ha, -⟩ := holds_of_mem_placesFrom _ _ _ _ _ ha
    obtain ⟨key', child', rest', hmem, hb, -⟩ := holds_of_mem_placesOfAll _ _ _ _ _ hb
    have hlt : key < key' := hkey key' (List.mem_map_of_mem hmem)
    rw [ha, hb, List.append_assoc]
    exact List.Lex.append_left _ (.rel (.directories hlt)) steps

end

end Directory

/-! ### Parents -/

/-- A place with a number hangs below an earlier place, its parent, in a list that is numbered from
a first number on. Nothing in between is nearer to the root than the place. -/
structure Hangs (first : Nat) (places : List Place) (id : Nat) (place : Place) (above : Nat)
    (holder : Place) : Prop where
  lt : above < id
  getElem? : places[above]? = some holder
  parent : place.parent = some (first + above)
  isDirectory : holder.item.isDirectory = true
  steps : ∃ step, place.steps = holder.steps ++ [step]
  between : ∀ k other, above < k → k < id → places[k]? = some other →
    place.steps.length ≤ other.steps.length

namespace Hangs

variable {first id above : Nat} {places : List Place} {place holder : Place}

theorem append (h : Hangs first places id place above holder) (hid : id < places.length)
    (more : List Place) : Hangs first (places ++ more) id place above holder where
  lt := h.lt
  getElem? := by rw [List.getElem?_append_left (h.lt.trans hid), h.getElem?]
  parent := h.parent
  isDirectory := h.isDirectory
  steps := h.steps
  between k other hk hkid hother := by
    rw [List.getElem?_append_left (hkid.trans hid)] at hother
    exact h.between k other hk hkid hother

theorem prepend (before : List Place)
    (h : Hangs (first + before.length) places id place above holder) :
    Hangs first (before ++ places) (before.length + id) place (before.length + above) holder where
  lt := Nat.add_lt_add_left h.lt _
  getElem? := by rw [List.getElem?_append_right (by omega), Nat.add_sub_cancel_left, h.getElem?]
  parent := by rw [h.parent, Nat.add_assoc]
  isDirectory := h.isDirectory
  steps := h.steps
  between k other hk hkid hother := by
    rw [List.getElem?_append_right (by omega)] at hother
    exact h.between _ other (by omega) (by omega) hother

/-- What a directory holds itself hangs below it, if it comes first and all else is deeper. -/
theorem direct {root : Place} (i : Nat) (hroot : root.item.isDirectory = true)
    (hdeeper : ∀ other ∈ places, root.steps.length < other.steps.length)
    (hparent : place.parent = some first) (hsteps : ∃ step, place.steps = root.steps ++ [step]) :
    Hangs first (root :: places) (i + 1) place 0 root where
  lt := Nat.succ_pos i
  getElem? := rfl
  parent := hparent
  isDirectory := hroot
  steps := hsteps
  between k other hk _ hother := by
    obtain ⟨step, hstep⟩ := hsteps
    obtain ⟨j, rfl⟩ : ∃ j, k = j + 1 := ⟨k - 1, by omega⟩
    rw [List.getElem?_cons_succ] at hother
    rw [hstep, List.length_append, List.length_singleton]
    exact hdeeper other (List.mem_of_getElem? hother)

end Hangs

namespace Directory

theorem length_lt_of_mem_placesBelow {first : Nat} {path : String} {steps : List Step}
    {directories : List (String × Directory)} {files : List FileEntry} {place : Place}
    (h : place ∈ placesOfAll (first + 1) first path steps directories ++
      placesOfFiles first steps files) : steps.length < place.steps.length := by
  rcases List.mem_append.1 h with h | h
  · obtain ⟨key, -, rest, -, hsteps, -⟩ := holds_of_mem_placesOfAll _ _ _ _ _ h
    simp [hsteps]
  · obtain ⟨position, file, -, rfl⟩ := mem_placesOfFiles.1 h
    simp

mutual

/-- Every place of a directory but its own hangs below one of its places. -/
theorem exists_hangs_placesFrom (first : Nat) (parent : Option Nat) (path : String)
    (steps : List Step) : (directory : Directory) → {id : Nat} → {place : Place} → 0 < id →
    (directory.placesFrom first parent path steps)[id]? = some place →
      ∃ above holder,
        Hangs first (directory.placesFrom first parent path steps) id place above holder
  | ⟨name, root, files, directories⟩, id, place, hpos, h => by
    obtain ⟨i, rfl⟩ : ∃ i, id = i + 1 := ⟨id - 1, by omega⟩
    rw [placesFrom] at h ⊢
    set below := placesOfAll (first + 1) first path steps directories with hall
    rw [List.getElem?_cons_succ] at h
    -- what stands directly in the directory hangs below its own place, which is the first one
    have hdirect (hparent : place.parent = some first)
        (hsteps : ∃ step, place.steps = steps ++ [step]) :
        Hangs first ({ steps, path, parent, item := .directory name } ::
          (below ++ placesOfFiles first steps files)) (i + 1) place 0
          { steps, path, parent, item := .directory name } :=
      .direct i rfl (fun other hother => length_lt_of_mem_placesBelow hother) hparent hsteps
    rcases Nat.lt_or_ge i below.length with hi | hi
    · have hbelow : below[i]? = some place := by rwa [List.getElem?_append_left hi] at h
      rcases exists_hangs_placesOfAll _ _ _ _ directories hbelow with
        ⟨hparent, hsteps⟩ | ⟨above, holder, hhangs⟩
      · exact ⟨_, _, hdirect hparent hsteps⟩
      · have hshift := (hhangs.append hi (placesOfFiles first steps files)).prepend
          [{ steps, path, parent, item := .directory name }]
        rw [List.length_singleton, Nat.add_comm 1 i] at hshift
        exact ⟨_, holder, hshift⟩
    · rw [List.getElem?_append_right hi] at h
      obtain ⟨position, file, -, rfl⟩ := mem_placesOfFiles.1 (List.mem_of_getElem? h)
      exact ⟨_, _, hdirect rfl ⟨_, rfl⟩⟩

/-- Every place of subdirectories hangs below one of their places or is that of a subdirectory. -/
theorem exists_hangs_placesOfAll (first parent : Nat) (path : String) (steps : List Step) :
    (directories : List (String × Directory)) → {id : Nat} → {place : Place} →
    (placesOfAll first parent path steps directories)[id]? = some place →
      (place.parent = some parent ∧ ∃ step, place.steps = steps ++ [step]) ∨
      ∃ above holder,
        Hangs first (placesOfAll first parent path steps directories) id place above holder
  | [], _, _, h => by simp [placesOfAll] at h
  | (key, child) :: others, id, place, h => by
    rw [placesOfAll] at h ⊢
    set places := child.placesFrom first (some parent) (Resolution.childPath path key)
      (steps ++ [.directory key]) with hplaces
    rcases Nat.lt_or_ge id places.length with hid | hid
    · rw [List.getElem?_append_left hid] at h
      rcases Nat.eq_zero_or_pos id with rfl | hpos
      · left
        rw [hplaces, placesFrom_eq, List.getElem?_cons_zero] at h
        obtain rfl := Option.some.inj h
        exact ⟨rfl, _, rfl⟩
      · right
        obtain ⟨above, holder, hhangs⟩ := exists_hangs_placesFrom _ _ _ _ child hpos h
        exact ⟨above, holder, hhangs.append hid _⟩
    · rw [List.getElem?_append_right hid] at h
      rcases exists_hangs_placesOfAll _ _ _ _ others h with hdirect | ⟨above, holder, hhangs⟩
      · exact .inl hdirect
      · have hprepend := hhangs.prepend places
        rw [Nat.add_sub_cancel' hid] at hprepend
        exact .inr ⟨_, holder, hprepend⟩

end

end Directory

/-! ### Numberings in pre-order -/

/-- Numbers below a bound form a tree in pre-order: the parent of a number is an earlier one, one
level higher, and everything in between is at least as deep as the number. -/
def Preordered (bound : Nat) (depth parent : Nat → Nat) : Prop :=
  ∀ j, 0 < j → j < bound →
    parent j < j ∧ depth j = depth (parent j) + 1 ∧
      ∀ k, parent j < k → k < j → depth j ≤ depth k

namespace Preordered

variable {bound : Nat} {depth parent : Nat → Nat}

/-- The descendants of a number are the later ones up to which everything is deeper. -/
theorem transGen_iff (h : Preordered bound depth parent) {i j : Nat} :
    Relation.TransGen (fun p c => 0 < c ∧ c < bound ∧ parent c = p) i j ↔
      i < j ∧ j < bound ∧ ∀ k, i < k → k ≤ j → depth i < depth k := by
  constructor
  · intro hij
    induction hij with
    | @single j hj =>
      obtain ⟨hpos, hj, rfl⟩ := hj
      obtain ⟨hlt, hdepth, hbetween⟩ := h j hpos hj
      refine ⟨hlt, hj, fun k hk hkj => ?_⟩
      rcases hkj.lt_or_eq with hkj | rfl
      · have := hbetween k hk hkj
        omega
      · omega
    | @tail p j _ hj ih =>
      -- up to the parent of `j` by induction, and after it since nothing there is above `j`
      obtain ⟨hpos, hj, rfl⟩ := hj
      obtain ⟨hlt, hdepth, hbetween⟩ := h j hpos hj
      obtain ⟨hip, -, hdeeper⟩ := ih
      have hparent := hdeeper (parent j) hip le_rfl
      refine ⟨hip.trans hlt, hj, fun k hk hkj => ?_⟩
      rcases Nat.lt_or_ge (parent j) k with hkp | hkp
      · rcases hkj.lt_or_eq with hkj | rfl
        · have := hbetween k hkp hkj
          omega
        · omega
      · exact hdeeper k hk hkp
  · rintro ⟨hij, hj, hdeeper⟩
    -- the parent of `j` is `i` or lies between them, since no ancestor is as deep as `i`
    induction j using Nat.strong_induction_on with
    | _ j ih =>
      have hpos : 0 < j := by omega
      obtain ⟨hlt, hdepth, hbetween⟩ := h j hpos hj
      rcases Nat.lt_trichotomy i (parent j) with hip | hip | hip
      · exact .tail (ih (parent j) hlt hip (by omega) fun k hk hkp => hdeeper k hk (by omega))
          ⟨hpos, hj, rfl⟩
      · exact .single ⟨hpos, hj, hip.symm⟩
      · have h1 := hbetween i hip hij
        have h2 := hdeeper j hij le_rfl
        omega

/-- The descendants of a number form one block directly after it. -/
theorem exists_block (h : Preordered bound depth parent) {i : Nat} (hi : i < bound) :
    ∃ size, i + size < bound ∧ ∀ j,
      Relation.TransGen (fun p c => 0 < c ∧ c < bound ∧ parent c = p) i j ↔
        i < j ∧ j ≤ i + size := by
  classical
  -- the block ends where something is not deeper for the first time, or at the bound
  let Deeper (size : Nat) : Prop := ∀ k, i < k → k ≤ i + size → depth i < depth k
  have hzero : Deeper 0 := fun k hk hki => by omega
  refine ⟨Nat.findGreatest Deeper (bound - 1 - i), ?_, fun j => ?_⟩
  · have := Nat.findGreatest_le (P := Deeper) (bound - 1 - i)
    omega
  · rw [h.transGen_iff]
    constructor
    · rintro ⟨hij, hj, hdeeper⟩
      refine ⟨hij, ?_⟩
      have : Deeper (j - i) := fun k hk hkj => hdeeper k hk (by omega)
      have := Nat.le_findGreatest (n := bound - 1 - i) (by omega) this
      omega
    · rintro ⟨hij, hj⟩
      have hle := Nat.findGreatest_le (P := Deeper) (bound - 1 - i)
      have hspec : Deeper _ := Nat.findGreatest_spec (Nat.zero_le (bound - 1 - i)) hzero
      exact ⟨hij, by omega, fun k hk hkj => hspec k hk (by omega)⟩

end Preordered

/-! ### The tree of a graph -/

/-- A graph shows the tree of a directory. `parent` gives the number of the directory that holds an
item of the listing. -/
structure Graph.ShowsTree (graph : Graph) (root : Directory) (parent : Nat → Nat) : Prop where
  /-- The listing has all that the root holds, -/
  mem_listing : ∀ steps item, (steps, item) ∈ root.listing ↔ root.Holds steps item
  /-- in pre-order, with subdirectories before files and, as directories are kept, by key. -/
  pairwise_listing : root.Ordered → root.listing.Pairwise fun a b => List.Lex Step.Before a.1 b.1
  /-- Each item has a node, in the same order and at the depth that its steps give. -/
  nodes_eq : graph.nodes = root.listing.mapIdx fun id (steps, item) => item.node id steps.length
  id_eq : ∀ (id : Nat) (node : GraphNode), graph.nodes[id]? = some node → node.id = id
  root_eq : graph.nodes[0]? = some { id := 0, name := root.name, isDirectory := true, depth := 0 }
  /-- Each node but the root has one link from its parent. -/
  hierarchies_eq :
    (graph.links.filter fun link => link.kind = .hierarchy) =
      (List.range' 1 (graph.nodes.length - 1)).map fun id => .hierarchy (parent id) id
  /-- The steps to an item are one more than those to its parent. -/
  parent_steps : ∀ (id : Nat) (steps : List Step) (item : TreeItem), 0 < id →
    root.listing[id]? = some (steps, item) →
      ∃ above holder step,
        root.listing[parent id]? = some (above, holder) ∧ steps = above ++ [step]
  /-- A parent comes earlier, is a directory, and is one level higher. -/
  parent_node : ∀ (id : Nat) (node : GraphNode), 0 < id → graph.nodes[id]? = some node →
    parent id < id ∧ ∃ holder, graph.nodes[parent id]? = some holder ∧
      holder.isDirectory = true ∧ node.depth = holder.depth + 1
  /-- What is below a node has the numbers directly after it. -/
  block : ∀ id < graph.nodes.length, ∃ size, id + size < graph.nodes.length ∧ ∀ other,
    Relation.TransGen (fun p c => GraphLink.hierarchy p c ∈ graph.links) id other ↔
      id < other ∧ other ≤ id + size

section Document

variable (document : Document)

/-- The number of the directory that holds the place with a number. -/
def Document.parentOf (id : Nat) : Nat := ((document.places[id]?).bind Place.parent).getD 0

/-- The depth of the place with a number. -/
def Document.depthOf (id : Nat) : Nat :=
  ((document.places[id]?).map fun place => place.steps.length).getD 0

variable {document}

theorem Document.getElem?_places_zero :
    document.places[0]? =
      some { steps := [], path := "", parent := none, item := .directory document.root.name } := by
  rw [Document.places, Directory.placesFrom_eq]
  rfl

theorem Document.exists_hangs {id : Nat} {place : Place} (hpos : 0 < id)
    (h : document.places[id]? = some place) :
    ∃ holder, Hangs 0 document.places id place (document.parentOf id) holder := by
  obtain ⟨above, holder, hhangs⟩ :=
    Directory.exists_hangs_placesFrom 0 none "" [] document.root hpos h
  have habove : document.parentOf id = above := by
    simp [Document.parentOf, h, hhangs.parent]
  exact ⟨holder, habove ▸ hhangs⟩

theorem Document.preordered (document : Document) :
    Preordered document.places.length document.depthOf document.parentOf := by
  intro id hpos hid
  obtain ⟨place, hplace⟩ : ∃ place, document.places[id]? = some place :=
    ⟨_, List.getElem?_eq_getElem hid⟩
  obtain ⟨holder, hhangs⟩ := Document.exists_hangs hpos hplace
  obtain ⟨step, hsteps⟩ := hhangs.steps
  refine ⟨hhangs.lt, ?_, fun k hk hkid => ?_⟩
  · simp [Document.depthOf, hplace, hhangs.getElem?, hsteps]
  · have hother := List.getElem?_eq_getElem (hkid.trans hid)
    simpa [Document.depthOf, hplace, hother] using hhangs.between k _ hk hkid hother

variable (setting : Resolution.Setting) (document)

theorem length_nodes_ofDocument :
    (Graph.ofDocument setting document).nodes.length = document.places.length := by
  rw [nodes_ofDocument, List.length_mapIdx]

theorem hierarchy_mem_links_iff {p c : Nat} :
    GraphLink.hierarchy p c ∈ (Graph.ofDocument setting document).links ↔
      0 < c ∧ c < document.places.length ∧ document.parentOf c = p := by
  rw [mem_links_ofDocument]
  constructor
  · rintro (⟨id, place, parent, hplace, hparent, h⟩ | ⟨entry, -, target, -, h⟩)
    · obtain ⟨rfl, rfl⟩ : p = parent ∧ c = id := by simpa [GraphLink.hierarchy] using h
      refine ⟨?_, (List.getElem?_eq_some_iff.1 hplace).1, ?_⟩
      · -- the first place is the root's, which has no parent
        by_contra hzero
        obtain rfl : c = 0 := by omega
        rw [Document.getElem?_places_zero] at hplace
        obtain rfl := Option.some.inj hplace
        cases hparent
      · simp [Document.parentOf, hplace, hparent]
    · simp [GraphLink.hierarchy, GraphLink.resolved] at h
  · rintro ⟨hpos, hc, rfl⟩
    obtain ⟨place, hplace⟩ : ∃ place, document.places[c]? = some place :=
      ⟨_, List.getElem?_eq_getElem hc⟩
    obtain ⟨holder, hhangs⟩ := Document.exists_hangs hpos hplace
    exact .inl ⟨c, place, _, hplace, by simpa using hhangs.parent, rfl⟩

/-- Every node but the root has one link of the hierarchy, and they come in the order of the
nodes. -/
theorem hierarchies_eq_range' :
    ((Graph.ofDocument setting document).links.filter fun link => link.kind = .hierarchy) =
      (List.range' 1 (document.places.length - 1)).map fun id =>
        .hierarchy (document.parentOf id) id := by
  obtain ⟨root, rest, hplaces⟩ : ∃ root rest, document.places = root :: rest := by
    rw [Document.places, Directory.placesFrom_eq]
    exact ⟨_, _, rfl⟩
  have hroot : root.parent = none := by
    have hzero := document.getElem?_places_zero
    rw [hplaces, List.getElem?_cons_zero] at hzero
    rw [Option.some.inj hzero]
  have hrest : ∀ entry ∈ rest.zipIdx 1,
      (entry.1.parent.map fun parent => GraphLink.hierarchy parent entry.2) =
        some (.hierarchy (document.parentOf entry.2) entry.2) := by
    intro entry hentry
    have hplace : document.places[entry.2]? = some entry.1 := by
      rw [← List.mk_mem_zipIdx_iff_getElem?, hplaces]
      exact List.mem_cons_of_mem _ hentry
    obtain ⟨holder, hhangs⟩ := Document.exists_hangs (List.le_snd_of_mem_zipIdx hentry) hplace
    simp [hhangs.parent]
  rw [hierarchies_ofDocument, hplaces, List.zipIdx_cons, Nat.zero_add,
    List.filterMap_cons_none (by simp [hroot]), List.filterMap_congr hrest, List.filterMap_eq_map',
    List.length_cons, Nat.add_sub_cancel, ← List.zipIdx_map_snd 1 rest, List.map_map]
  rfl

/-- The nodes show the items of the tree in the order of the listing. -/
theorem nodes_eq_listing :
    (Graph.ofDocument setting document).nodes =
      document.root.listing.mapIdx fun id (steps, item) => item.node id steps.length := by
  rw [nodes_ofDocument, ← Document.map_places]
  refine List.ext_getElem? fun id => ?_
  simp only [List.getElem?_mapIdx, List.getElem?_map, Option.map_map, Function.comp_def]

/-- One step leads from the parent of an item to the item. -/
theorem getElem?_listing_parentOf {id : Nat} {steps : List Step} {item : TreeItem} (hpos : 0 < id)
    (h : document.root.listing[id]? = some (steps, item)) :
    ∃ above holder step, document.root.listing[document.parentOf id]? = some (above, holder) ∧
      steps = above ++ [step] := by
  rw [← Document.map_places, List.getElem?_map] at h
  obtain ⟨place, hplace, heq⟩ := Option.map_eq_some_iff.1 h
  obtain ⟨rfl, rfl⟩ := Prod.mk.inj heq
  obtain ⟨holder, hhangs⟩ := Document.exists_hangs hpos hplace
  obtain ⟨step, hsteps⟩ := hhangs.steps
  refine ⟨holder.steps, holder.item, step, ?_, hsteps⟩
  rw [← Document.map_places, List.getElem?_map, hhangs.getElem?, Option.map_some]

/-- The parent of a node comes earlier, is a directory, and is one level higher. -/
theorem getElem?_nodes_parentOf {id : Nat} {node : GraphNode} (hpos : 0 < id)
    (h : (Graph.ofDocument setting document).nodes[id]? = some node) :
    document.parentOf id < id ∧
      ∃ holder, (Graph.ofDocument setting document).nodes[document.parentOf id]? = some holder ∧
        holder.isDirectory = true ∧ node.depth = holder.depth + 1 := by
  rw [getElem?_nodes_ofDocument] at h
  obtain ⟨place, hplace, rfl⟩ := Option.map_eq_some_iff.1 h
  obtain ⟨holder, hhangs⟩ := Document.exists_hangs hpos hplace
  obtain ⟨step, hsteps⟩ := hhangs.steps
  have hholder : (Graph.ofDocument setting document).nodes[document.parentOf id]? =
      some (holder.item.node (document.parentOf id) holder.steps.length) := by
    rw [getElem?_nodes_ofDocument, hhangs.getElem?, Option.map_some]
  refine ⟨hhangs.lt, _, hholder, ?_, ?_⟩
  · rw [TreeItem.node_isDirectory, hhangs.isDirectory]
  · rw [TreeItem.node_depth, TreeItem.node_depth, hsteps, List.length_append, List.length_singleton]

/-- **The hierarchy of every graph is the tree of its document.** -/
theorem showsTree_ofDocument :
    ∃ parent, (Graph.ofDocument setting document).ShowsTree document.root parent := by
  refine ⟨document.parentOf, ?_⟩
  exact
    { mem_listing := by
        intro steps item
        simp only [← Document.map_places, ← Document.exists_mem_places_iff, List.mem_map,
          Prod.mk.injEq]
      pairwise_listing := by
        intro hordered
        rw [← Document.map_places, List.pairwise_map]
        exact Directory.pairwise_placesFrom 0 none "" [] document.root hordered
      nodes_eq := nodes_eq_listing document setting
      id_eq := by
        intro id node h
        rw [getElem?_nodes_ofDocument] at h
        obtain ⟨place, -, rfl⟩ := Option.map_eq_some_iff.1 h
        exact TreeItem.node_id _ _ _
      root_eq := by
        rw [getElem?_nodes_ofDocument, Document.getElem?_places_zero]
        rfl
      hierarchies_eq := by
        rw [length_nodes_ofDocument]
        exact hierarchies_eq_range' document setting
      parent_steps := fun _ _ _ hpos h => getElem?_listing_parentOf document hpos h
      parent_node := fun _ _ hpos h => getElem?_nodes_parentOf document setting hpos h
      block := by
        intro id hid
        rw [length_nodes_ofDocument] at hid ⊢
        -- the links of the hierarchy are the pairs of a number and its parent
        simp only [hierarchy_mem_links_iff]
        exact document.preordered.exists_block hid }

end Document

end SourceAtlas
