import SourceAtlas.Proofs.Graph.Targets

/-!
# Resolution in one pass

While a document is visited, an import is resolved with the paths visited so far; what is left
pending is matched when all paths are known. `onePassTarget?` resolves an import at once, with the
files on disk and all places of the document. The two agree on documents

* whose recorded paths differ from each other (`DistinctPaths`), so that a node found early is the
  one that would be found late, and
* whose places with an allowed extension are files on disk (`Backed`), so that having visited a
  path adds nothing to what the disk says when extensions are probed.

The main result, `dependencies_eq_onePass`, says so for the dependencies of the graph: whether a
file is visited before or after those that import it does not matter.
-/

namespace SourceAtlas

namespace Resolution

/-! ### Resolving at once -/

/-- The number of the first place at a path. -/
def nodeAt? (places : List Place) (path : List Char) : Option Nat :=
  places.findIdx? fun place => place.path.toList = path

/-- The path that is tried for a candidate when only the files on disk are probed. -/
def probeDisk (setting : Setting) (path : List Char) : List Char :=
  if setting.config.allows path then path
  else ((extended setting.config path).find? setting.onDisk).getD path

/-- The node that an import names when all places are known from the start. -/
def onePassTarget? (setting : Setting) (places : List Place) (entry : ImportEntry) : Option Nat :=
  (candidate? setting.config entry.importer.toList entry.specifier.toList).bind fun path =>
    let tried := probeDisk setting path
    (nodeAt? places tried).or ((extended setting.config tried).findSome? (nodeAt? places))

/-! ### Distinct paths -/

/-- The recorded paths differ from each other. The empty path is not recorded. -/
def DistinctPaths (places : List Place) : Prop :=
  ((places.map Place.path).filter fun path => path ≠ "").Nodup

instance : DecidablePred DistinctPaths := fun _ => inferInstanceAs (Decidable (List.Nodup _))

section Distinct

variable {places : List Place}

/-- Among distinct paths a path is recorded for one number only. -/
theorem DistinctPaths.eq (hdistinct : DistinctPaths places) {path : String} {i j : Nat}
    (hi : (path, i) ∈ table places) (hj : (path, j) ∈ table places) : i = j := by
  rw [DistinctPaths, List.Nodup, List.pairwise_filter, List.pairwise_map,
    List.pairwise_iff_getElem] at hdistinct
  obtain ⟨hpath, a, ha, rfl⟩ := mem_table.1 hi
  obtain ⟨-, b, hb, hab⟩ := mem_table.1 hj
  obtain ⟨hilt, rfl⟩ := List.getElem?_eq_some_iff.1 ha
  obtain ⟨hjlt, rfl⟩ := List.getElem?_eq_some_iff.1 hb
  have hpathJ : places[j].path ≠ "" := hab ▸ hpath
  rcases Nat.lt_trichotomy i j with hlt | heq | hlt
  · exact absurd hab.symm
      (hdistinct i j hilt hjlt hlt (by simpa using hpath) (by simpa using hpathJ))
  · exact heq
  · exact absurd hab (hdistinct j i hjlt hilt hlt (by simpa using hpathJ) (by simpa using hpath))

theorem DistinctPaths.find?_table_iff (hdistinct : DistinctPaths places) {path : String}
    {id : Nat} : find? (table places) path = some id ↔ (path, id) ∈ table places := by
  constructor
  · exact mem_of_find?_eq_some
  · intro h
    obtain ⟨other, hother⟩ := Option.isSome_iff_exists.1 (isSome_find?_iff.2 ⟨id, h⟩)
    rw [hother, hdistinct.eq (mem_of_find?_eq_some hother) h]

/-- A path that was found among the first places is found at the same number among all. -/
theorem DistinctPaths.find?_of_take (hdistinct : DistinctPaths places) {path : String}
    {count id : Nat} (h : find? (table (places.take count)) path = some id) :
    find? (table places) path = some id := by
  obtain ⟨hpath, place, hplace, hplacePath⟩ := mem_table.1 (mem_of_find?_eq_some h)
  exact hdistinct.find?_table_iff.2
    (mem_table.2 ⟨hpath, place, getElem?_of_getElem?_take hplace, hplacePath⟩)

theorem DistinctPaths.find?_eq_nodeAt? (hdistinct : DistinctPaths places) {path : List Char}
    (hpath : path ≠ []) : find? (table places) (String.ofList path) = nodeAt? places path := by
  cases hnode : nodeAt? places path with
  | none =>
    rw [nodeAt?, List.findIdx?_eq_none_iff] at hnode
    rw [← Option.not_isSome_iff_eq_none, isSome_find?_table hpath]
    rintro ⟨place, hplace, hat⟩
    simpa [hat] using hnode place hplace
  | some id =>
    obtain ⟨hid, hat, -⟩ := List.findIdx?_eq_some_iff_getElem.1 hnode
    rw [decide_eq_true_eq] at hat
    exact hdistinct.find?_table_iff.2 (mem_table.2
      ⟨by simpa using hpath, places[id], List.getElem?_eq_getElem hid, by simp [← hat]⟩)

theorem DistinctPaths.findSome?_eq (hdistinct : DistinctPaths places) {paths : List (List Char)}
    (hpaths : ∀ path ∈ paths, path ≠ []) :
    (paths.findSome? fun path => find? (table places) (String.ofList path)) =
      paths.findSome? (nodeAt? places) := by
  induction paths with
  | nil => rfl
  | cons path paths ih =>
    rw [List.findSome?_cons, List.findSome?_cons,
      hdistinct.find?_eq_nodeAt? (hpaths path List.mem_cons_self),
      ih fun p hp => hpaths p (List.mem_cons_of_mem _ hp)]

/-- Among distinct paths a pending path matches the node that is at it or at its first extension
with a node. -/
theorem DistinctPaths.match?_eq (hdistinct : DistinctPaths places) {config : Config}
    {path : List Char} (hpath : path ≠ []) :
    match? config (table places) (String.ofList path) =
      (nodeAt? places path).or ((extended config path).findSome? (nodeAt? places)) := by
  rw [match?, hdistinct.find?_eq_nodeAt? hpath, String.toList_ofList,
    hdistinct.findSome?_eq fun p hp => ne_nil_of_mem_extended hpath hp]

end Distinct

/-! ### Probing with the files on disk -/

section OnDisk

variable {setting : Setting} {places : List Place} {path : List Char}

theorem allows_of_mem_extended {config : Config} {p : List Char} (hp : p ∈ extended config path) :
    config.allows p = true := by
  obtain ⟨extension, hextension, rfl⟩ := List.mem_map.1 hp
  exact List.any_eq_true.2
    ⟨extension, hextension, List.isSuffixOf_iff_suffix.2 (List.suffix_append _ _)⟩

/-- The places with an allowed extension are files on disk. -/
def Backed (setting : Setting) (places : List Place) : Prop :=
  ∀ place ∈ places, place.path ≠ "" → setting.config.allows place.path.toList = true →
    setting.onDisk place.path.toList = true

/-- Having visited a path with an extension tells no more than the disk does. -/
theorem Backed.isKnown_eq (hbacked : Backed setting places) (count : Nat) {p : List Char}
    (hp : p ∈ extended setting.config path) :
    isKnown setting (table (places.take count)) p = setting.onDisk p := by
  cases hdisk : setting.onDisk p with
  | true => simp [isKnown, hdisk]
  | false =>
    -- a place at `p` would be on disk, since `p` ends with an allowed extension
    cases hfind : find? (table (places.take count)) (String.ofList p) with
    | none => simp [isKnown, hdisk, hfind]
    | some id =>
      obtain ⟨hne, place, hplace, hpath⟩ := mem_table.1 (mem_of_find?_eq_some hfind)
      have hmem : place ∈ places := List.mem_of_getElem? (getElem?_of_getElem?_take hplace)
      have hlist : place.path.toList = p := by simp [hpath]
      have honDisk := hbacked place hmem (hpath ▸ hne)
        (by rw [hlist]; exact allows_of_mem_extended hp)
      rw [hlist, hdisk] at honDisk
      cases honDisk

theorem Backed.probe_eq (hbacked : Backed setting places) (count : Nat) (path : List Char) :
    probe setting (table (places.take count)) path = probeDisk setting path := by
  rw [probe, probeDisk, List.find?_congr fun p hp => hbacked.isKnown_eq count hp]

/-- A candidate leads to the same node whatever has been visited. -/
theorem settled?_eq_onePass (hdistinct : DistinctPaths places) (hbacked : Backed setting places)
    (count : Nat) (hpath : path ≠ []) :
    settled? setting places count path =
      (nodeAt? places (probeDisk setting path)).or
        ((extended setting.config (probeDisk setting path)).findSome? (nodeAt? places)) := by
  have htried : probeDisk setting path ≠ [] := by
    rw [← hbacked.probe_eq count]
    exact probe_ne_nil hpath
  rw [← hdistinct.match?_eq htried, settled?, hbacked.probe_eq]
  -- a node that is found among the visited places is the one that all places give
  cases hfind : find? (table (places.take count)) (String.ofList (probeDisk setting path)) with
  | none => rw [Option.none_or]
  | some id => rw [match?, hdistinct.find?_of_take hfind, Option.some_or, Option.some_or]

end OnDisk

end Resolution

open Resolution

/-- The files are on disk and no directory looks like a file. -/
theorem Document.backed {setting : Setting} {document : Document}
    (hfiles : ∀ file ∈ document.files, setting.onDisk file.path.toList = true)
    (hdirectories : ∀ place ∈ document.places, place.item.isDirectory = true → place.path ≠ "" →
      setting.config.allows place.path.toList = false) : Backed setting document.places := by
  intro place hplace hpath hallows
  cases hitem : place.item with
  | directory name =>
    have hnot := hdirectories place hplace (by rw [hitem]; rfl) hpath
    rw [hallows] at hnot
    cases hnot
  | file file =>
    obtain ⟨hfile, hfilePath⟩ := Document.mem_files_of_mem_places hplace hitem
    rw [hfilePath]
    exact hfiles file hfile

/-- **Visiting order does not matter.** If the recorded paths are distinct, all files are on disk
and no directory's path ends with an allowed extension, then the dependencies are those that one
finds by resolving each import with the disk and all places. Nodes are numbered like places. -/
theorem dependencies_eq_onePass (setting : Setting) (document : Document)
    (hdistinct : DistinctPaths document.places)
    (hfiles : ∀ file ∈ document.files, setting.onDisk file.path.toList = true)
    (hdirectories : ∀ place ∈ document.places, place.item.isDirectory = true → place.path ≠ "" →
      setting.config.allows place.path.toList = false) :
    (Graph.ofDocument setting document).nodes =
        document.places.mapIdx (fun id place => place.item.node id place.steps.length) ∧
      (Graph.ofDocument setting document).dependencies =
        document.imports.filterMap fun entry =>
          (onePassTarget? setting document.places entry).map
            (GraphLink.resolved entry.source) := by
  refine ⟨nodes_ofDocument setting document, ?_⟩
  rw [dependencies_ofDocument]
  refine List.filterMap_congr fun entry _ => ?_
  rw [target?_eq_bind_settled?, onePassTarget?]
  cases hpath : candidate? setting.config entry.importer.toList entry.specifier.toList with
  | none => rfl
  | some path =>
    simp only [Option.bind_some]
    rw [settled?_eq_onePass hdistinct (Document.backed hfiles hdirectories) _
      (candidate?_ne_nil hpath)]

/-- A document in which `lib/tool.ts` imports a file that is visited after it, and `main.ts` a file
and a directory that are visited before it. Two imports lead nowhere. -/
def crossImports : Document :=
  { root :=
      { name := "app"
        files := [{ name := "main.ts", path := "main.ts"
                    internalImports := ["./lib/tool", "./lib"] }]
        directories := [("lib",
          { name := "lib"
            files := [{ name := "tool.ts", path := "lib/tool.ts"
                        internalImports := ["../main", "./gone", "../../up"] }] })] } }

/-- The default settings, with the files of `crossImports` on disk. -/
def crossImportsOnDisk : Setting :=
  { config := {}
    onDisk := fun path => crossImports.files.any fun file => file.path.toList = path }

theorem dependencies_crossImports :
    DistinctPaths crossImports.places ∧
      (∀ file ∈ crossImports.files, crossImportsOnDisk.onDisk file.path.toList = true) ∧
      (∀ place ∈ crossImports.places, place.item.isDirectory = true → place.path ≠ "" →
        crossImportsOnDisk.config.allows place.path.toList = false) ∧
      (Graph.ofDocument crossImportsOnDisk crossImports).dependencies =
        [.resolved 2 3, .resolved 3 2, .resolved 3 1] := by
  have hdistinct : DistinctPaths crossImports.places := by decide +kernel
  have hfiles : ∀ file ∈ crossImports.files,
      crossImportsOnDisk.onDisk file.path.toList = true := by decide +kernel
  have hdirectories : ∀ place ∈ crossImports.places, place.item.isDirectory = true →
      place.path ≠ "" → crossImportsOnDisk.config.allows place.path.toList = false := by
    decide +kernel
  refine ⟨hdistinct, hfiles, hdirectories, ?_⟩
  rw [(dependencies_eq_onePass crossImportsOnDisk crossImports hdistinct hfiles hdirectories).2]
  decide +kernel

end SourceAtlas
