import SourceAtlas.Proofs.Graph.Imports
import SourceAtlas.Proofs.Graph.Traversal

/-!
# Where imports lead

The target of an import is found in two steps: a candidate path is tried as it is or with an
extension (`probe`), and the path that is tried is looked up among the places visited so far and, if
it is not there, matched with all of them (`settled?`). The lookups are first described in terms of
the places themselves: what is found is a place at the path (`find?_table_eq_some`), and every
recorded path is found (`isSome_find?_table`).

Without a disk the outcome does not depend on how much has been visited:
`isSome_settled?_without_disk` says when a candidate leads to a node, and
`dependencies_without_disk` that no dependency of the graph is lost or invented.
-/

namespace SourceAtlas

namespace Resolution

/-! ### Looking up paths -/

section Table

variable {places : List Place} {id : Nat}

theorem mem_table {path : String} :
    (path, id) ∈ table places ↔
      path ≠ "" ∧ ∃ place, places[id]? = some place ∧ place.path = path := by
  simp only [table, List.mem_reverse, List.mem_filterMap, Prod.exists,
    List.mk_mem_zipIdx_iff_getElem?]
  constructor
  · rintro ⟨place, i, hplace, h⟩
    split_ifs at h with hempty
    obtain ⟨rfl, rfl⟩ := Prod.mk.inj (Option.some.inj h)
    exact ⟨by simpa using hempty, place, hplace, rfl⟩
  · rintro ⟨hpath, place, hplace, rfl⟩
    exact ⟨place, id, hplace, by simp [hpath]⟩

theorem mem_of_find?_eq_some {known : PathTable} {path : String} (h : find? known path = some id) :
    (path, id) ∈ known := by
  obtain ⟨⟨p, i⟩, hfind, rfl⟩ := Option.map_eq_some_iff.1 h
  have hp : p = path := by simpa using List.find?_some hfind
  exact hp ▸ List.mem_of_find?_eq_some hfind

theorem isSome_find?_iff {known : PathTable} {path : String} :
    (find? known path).isSome ↔ ∃ id, (path, id) ∈ known := by
  simp [find?, List.find?_isSome]

/-- A path that is found belongs to the place with the number that is found. -/
theorem find?_table_eq_some {path : List Char}
    (h : find? (table places) (String.ofList path) = some id) :
    ∃ place, places[id]? = some place ∧ place.path.toList = path := by
  obtain ⟨-, place, hplace, hpath⟩ := mem_table.1 (mem_of_find?_eq_some h)
  exact ⟨place, hplace, by simp [hpath]⟩

/-- The path of every place is found. -/
theorem isSome_find?_table {path : List Char} (hpath : path ≠ []) :
    (find? (table places) (String.ofList path)).isSome ↔
      ∃ place ∈ places, place.path.toList = path := by
  simp only [isSome_find?_iff, mem_table]
  constructor
  · rintro ⟨id, -, place, hplace, h⟩
    exact ⟨place, List.mem_of_getElem? hplace, by simp [h]⟩
  · rintro ⟨place, hplace, rfl⟩
    obtain ⟨id, hid⟩ := List.mem_iff_getElem?.1 hplace
    exact ⟨id, by simpa using hpath, place, hid, by simp⟩

variable {config : Config}

theorem match?_table_eq_some {path : List Char}
    (h : match? config (table places) (String.ofList path) = some id) :
    ∃ place, places[id]? = some place ∧ place.path.toList ∈ path :: extended config path := by
  rw [match?, Option.or_eq_some_iff] at h
  rcases h with h | ⟨-, h⟩
  · obtain ⟨place, hplace, rfl⟩ := find?_table_eq_some h
    exact ⟨place, hplace, List.mem_cons_self⟩
  · obtain ⟨p, hp, hfind⟩ := List.exists_of_findSome?_eq_some h
    obtain ⟨place, hplace, rfl⟩ := find?_table_eq_some hfind
    exact ⟨place, hplace, List.mem_cons_of_mem _ (by simpa using hp)⟩

theorem ne_nil_of_mem_extended {path p : List Char} (hpath : path ≠ [])
    (hp : p ∈ extended config path) : p ≠ [] := by
  obtain ⟨extension, -, rfl⟩ := List.mem_map.1 hp
  simp [hpath]

theorem isSome_match?_table {path : List Char} (hpath : path ≠ []) :
    (match? config (table places) (String.ofList path)).isSome ↔
      ∃ place ∈ places, place.path.toList ∈ path :: extended config path := by
  rw [match?, Option.isSome_or, Bool.or_eq_true, isSome_find?_table hpath,
    List.findSome?_isSome_iff]
  simp only [String.toList_ofList, List.mem_cons]
  constructor
  · rintro (⟨place, hplace, h⟩ | ⟨p, hp, h⟩)
    · exact ⟨place, hplace, .inl h⟩
    · obtain ⟨place, hplace, rfl⟩ := (isSome_find?_table (ne_nil_of_mem_extended hpath hp)).1 h
      exact ⟨place, hplace, .inr hp⟩
  · rintro ⟨place, hplace, h | h⟩
    · exact .inl ⟨place, hplace, h⟩
    · exact .inr ⟨_, h, (isSome_find?_table (ne_nil_of_mem_extended hpath h)).2
        ⟨place, hplace, rfl⟩⟩

end Table

/-! ### Probing extensions -/

/-- The path that is tried for a candidate. -/
def probe (setting : Setting) (known : PathTable) (path : List Char) : List Char :=
  if setting.config.allows path then path
  else ((extended setting.config path).find? (isKnown setting known)).getD path

section Probe

variable {setting : Setting} {known : PathTable} {path : List Char}

theorem resolve?_eq_map_probe (setting : Setting) (known : PathTable)
    (importer specifier : List Char) :
    resolve? setting known importer specifier =
      (candidate? setting.config importer specifier).map (probe setting known) := rfl

/-- A candidate is tried as it is, or with an extension with which it is known. -/
theorem probe_eq_or (setting : Setting) (known : PathTable) (path : List Char) :
    probe setting known path = path ∨
      probe setting known path ∈ extended setting.config path ∧
        isKnown setting known (probe setting known path) = true := by
  unfold probe
  split_ifs with hallows
  · exact .inl rfl
  · cases hfind : (extended setting.config path).find? (isKnown setting known) with
    | none => exact .inl rfl
    | some p => exact .inr ⟨List.mem_of_find?_eq_some hfind, List.find?_some hfind⟩

theorem probe_mem (setting : Setting) (known : PathTable) (path : List Char) :
    probe setting known path ∈ path :: extended setting.config path := by
  rcases probe_eq_or setting known path with h | ⟨h, -⟩
  · rw [h]
    exact List.mem_cons_self
  · exact List.mem_cons_of_mem _ h

theorem probe_ne_nil (hpath : path ≠ []) : probe setting known path ≠ [] := by
  rcases List.mem_cons.1 (probe_mem setting known path) with h | h
  · rw [h]
    exact hpath
  · exact ne_nil_of_mem_extended hpath h

end Probe

/-! ### The target of an import -/

section Target

variable {setting : Setting} {places : List Place} {entry : ImportEntry}

/-- The node that a candidate leads to when the places before a number have been visited. -/
def settled? (setting : Setting) (places : List Place) (count : Nat) (path : List Char) :
    Option Nat :=
  let tried := probe setting (table (places.take count)) path
  (find? (table (places.take count)) (String.ofList tried)).or
    (match? setting.config (table places) (String.ofList tried))

theorem target?_eq_bind_settled? (setting : Setting) (places : List Place) (entry : ImportEntry) :
    target? setting places entry =
      (candidate? setting.config entry.importer.toList entry.specifier.toList).bind
        (settled? setting places (entry.source + 1)) := by
  simp only [target?, resolve?_eq_map_probe, Option.bind_map]
  rfl

theorem getElem?_of_getElem?_take {count id : Nat} {place : Place}
    (h : (places.take count)[id]? = some place) : places[id]? = some place := by
  rw [List.getElem?_take] at h
  split_ifs at h
  exact h

/-- The node that a candidate leads to is at the path that is tried, or at that path with an
extension. -/
theorem settled?_eq_some {count id : Nat} {path : List Char}
    (h : settled? setting places count path = some id) :
    ∃ place, places[id]? = some place ∧
      ∃ tried ∈ path :: extended setting.config path,
        place.path.toList ∈ tried :: extended setting.config tried := by
  obtain h | ⟨-, h⟩ := Option.or_eq_some_iff.1 h
  · obtain ⟨place, hplace, hpath⟩ := find?_table_eq_some h
    exact ⟨place, getElem?_of_getElem?_take hplace, place.path.toList, hpath ▸ probe_mem _ _ _,
      List.mem_cons_self⟩
  · obtain ⟨place, hplace, hpath⟩ := match?_table_eq_some h
    exact ⟨place, hplace, _, probe_mem _ _ _, hpath⟩

end Target

/-! ### Resolution without a disk -/

section WithoutDisk

variable {config : Config} {places : List Place} {count : Nat} {path : List Char}

theorem isKnown_without_disk (config : Config) (known : PathTable) (path : List Char) :
    isKnown { config } known path = (find? known (String.ofList path)).isSome := by
  simp [isKnown]

/-- Without a disk a candidate leads to a node at the candidate or at the candidate with an
extension. -/
theorem settled?_without_disk_eq_some {id : Nat}
    (h : settled? { config } places count path = some id) :
    ∃ place, places[id]? = some place ∧ place.path.toList ∈ path :: extended config path := by
  obtain h | ⟨hnone, h⟩ := Option.or_eq_some_iff.1 h
  · obtain ⟨place, hplace, hpath⟩ := find?_table_eq_some h
    exact ⟨place, getElem?_of_getElem?_take hplace, hpath ▸ probe_mem _ _ _⟩
  · -- without a disk only what has been visited is probed, and that would have been found
    rcases probe_eq_or { config } (table (places.take count)) path with htried | ⟨-, hknown⟩
    · rw [htried] at h
      exact match?_table_eq_some h
    · rw [isKnown_without_disk, hnone] at hknown
      cases hknown

/-- Without a disk a candidate leads to a node as soon as there is one at the candidate or at the
candidate with an extension, whether it has been visited or not. -/
theorem isSome_settled?_without_disk (hpath : path ≠ []) :
    (settled? { config } places count path).isSome ↔
      ∃ place ∈ places, place.path.toList ∈ path :: extended config path := by
  constructor
  · intro h
    obtain ⟨id, hid⟩ := Option.isSome_iff_exists.1 h
    obtain ⟨place, hplace, hmem⟩ := settled?_without_disk_eq_some hid
    exact ⟨place, List.mem_of_getElem? hplace, hmem⟩
  · intro h
    simp only [settled?, Option.isSome_or, Bool.or_eq_true]
    rcases probe_eq_or { config } (table (places.take count)) path with htried | ⟨-, hknown⟩
    · rw [htried]
      exact .inr ((isSome_match?_table hpath).2 h)
    · rw [isKnown_without_disk] at hknown
      exact .inl hknown

end WithoutDisk

end Resolution

open Resolution

/-- **No dependency is lost or invented without a disk.** An import has one link if a node is at the
path that it names, or at that path with an extension, and the link leads to such a node; otherwise
it has none. There are no other dependencies. Nodes are numbered like places. -/
theorem dependencies_without_disk (config : Config) (document : Document) :
    (Graph.ofDocument { config } document).nodes =
        document.places.mapIdx (fun id place => place.item.node id place.steps.length) ∧
      ∃ target : ImportEntry → Option Nat,
        (Graph.ofDocument { config } document).dependencies =
          document.imports.filterMap
            (fun entry => (target entry).map (GraphLink.resolved entry.source)) ∧
        ∀ entry,
          ((target entry).isSome ↔
            ∃ path, Names config entry.importer.toList entry.specifier.toList path ∧
              ∃ place ∈ document.places, place.path.toList = path ∨
                ∃ extension ∈ config.extensions, place.path.toList = path ++ extension.toList) ∧
          ∀ id, target entry = some id →
            ∃ path, Names config entry.importer.toList entry.specifier.toList path ∧
              ∃ place, document.places[id]? = some place ∧ (place.path.toList = path ∨
                ∃ extension ∈ config.extensions, place.path.toList = path ++ extension.toList) := by
  refine ⟨nodes_ofDocument _ _, target? { config } document.places, dependencies_ofDocument _ _,
    fun entry => ?_⟩
  simp only [← candidate?_eq_some_iff, ← mem_cons_extended]
  rw [target?_eq_bind_settled?]
  cases hpath : candidate? config entry.importer.toList entry.specifier.toList with
  | none => simp
  | some path =>
    simp only [Option.bind_some, Option.some.injEq, exists_eq_left']
    exact ⟨isSome_settled?_without_disk (candidate?_ne_nil hpath),
      fun id hid => settled?_without_disk_eq_some hid⟩

end SourceAtlas
