import SourceAtlas.Proofs.Graph.Links
import SourceAtlas.Proofs.Graph.Positions
import SourceAtlas.Proofs.Path.Evaluation

/-!
# Specifiers that spell out a path

The relative specifier of a file for an importing file goes up to the last directory that the two
share and from there down to the file (`Path.relativeSpecifier`). Evaluated in the directory of the
importing file it gives the path of the file, as does the path behind a slash, so with an allowed
extension both lead to the node of the file, whether it is visited before or after the importing one
and whatever is on disk.
-/

namespace SourceAtlas

open Text

namespace Path

/-! ### Relative specifiers -/

/-- The number of names that two chains have in common at their start. -/
def commonLength : List (List Char) → List (List Char) → Nat
  | name :: names, other :: others =>
    if name = other then commonLength names others + 1 else 0
  | _, _ => 0

/-- The start of a specifier that goes up some directories. -/
def upward (count : Nat) : List Char :=
  if count = 0 then ['.', '/'] else (List.replicate count ['.', '.', '/']).flatten

/-- The specifier of a file for an importing file: up to the last common directory, and down the
names that are left. -/
def relativeSpecifier (importer target : List Char) : List Char :=
  let above := (importer.splitOn '/').dropLast
  let names := target.splitOn '/'
  let shared := commonLength above names.dropLast
  upward (above.length - shared) ++ ofNames (names.drop shared)

theorem commonLength_le (names others : List (List Char)) :
    commonLength names others ≤ others.length := by
  induction names generalizing others with
  | nil => simp [commonLength]
  | cons name names ih =>
    cases others with
    | nil => simp [commonLength]
    | cons other others =>
      have hle := ih others
      unfold commonLength
      split
      · simp only [List.length_cons]
        omega
      · omega

theorem take_commonLength (names others : List (List Char)) :
    names.take (commonLength names others) = others.take (commonLength names others) := by
  induction names generalizing others with
  | nil => simp [commonLength]
  | cons name names ih =>
    cases others with
    | nil => simp [commonLength]
    | cons other others =>
      unfold commonLength
      split
      next heq => rw [List.take_succ_cons, List.take_succ_cons, heq, ih]
      next => rfl

theorem take_commonLength_dropLast (names others : List (List Char)) :
    names.take (commonLength names others.dropLast) =
      others.take (commonLength names others.dropLast) := by
  have hle := commonLength_le names others.dropLast
  rw [take_commonLength]
  generalize commonLength names others.dropLast = count at hle
  rw [List.length_dropLast] at hle
  rw [List.dropLast_eq_take, List.take_take, Nat.min_eq_left hle]

theorem segments_upward (count : Nat) (path : List Char) :
    segments (upward count ++ path) = List.replicate count ['.', '.'] ++ segments path := by
  unfold upward
  split
  next hzero =>
    subst hzero
    simp [segments, List.splitOn_cons_eq_if_modifyHead]
  next =>
    clear * -
    induction count with
    | zero => rfl
    | succ count ih =>
      have hstep : ∀ rest, segments (['.', '.', '/'] ++ rest) = ['.', '.'] :: segments rest := by
        simp [segments, List.splitOn_cons_eq_if_modifyHead]
      rw [List.replicate_succ, List.flatten_cons, List.append_assoc, hstep, ih]
      rfl

theorem head?_upward (count : Nat) (path : List Char) :
    (upward count ++ path).head? = some '.' := by
  cases count with
  | zero => rfl
  | succ count =>
    rw [upward, if_neg (Nat.succ_ne_zero count)]
    rfl

/-- Going down some names, up again to what a chain shares with them, and down the rest of the chain
leads to the chain. -/
theorem evaluate_relative {absolute : Bool} {above names : List (List Char)} {shared : Nat}
    (habove : ∀ name ∈ above, name ≠ ['.', '.']) (hnames : ∀ name ∈ names, name ≠ ['.', '.'])
    (hshared : above.take shared = names.take shared) :
    evaluate absolute []
        (above ++ (List.replicate (above.length - shared) ['.', '.'] ++ names.drop shared)) =
      some names := by
  have hstack : above.reverse = (above.drop shared).reverse ++ (above.take shared).reverse := by
    rw [← List.reverse_append, List.take_append_drop]
  have hlength : above.length - shared = (above.drop shared).reverse.length := by simp
  have hrest : ∀ name ∈ names.drop shared, name ≠ ['.', '.'] :=
    fun name hname => hnames name (List.mem_of_mem_drop hname)
  calc evaluate absolute []
        (above ++ (List.replicate (above.length - shared) ['.', '.'] ++ names.drop shared))
      = evaluate absolute ((above.drop shared).reverse ++ (above.take shared).reverse)
          (List.replicate (above.drop shared).reverse.length ['.', '.'] ++ names.drop shared) := by
        rw [evaluate_names habove, List.append_nil, hstack, hlength]
    _ = evaluate absolute (above.take shared).reverse (names.drop shared ++ []) := by
        rw [evaluate_parents, List.append_nil]
    _ = some names := by
        rw [evaluate_names hrest, evaluate, ← List.reverse_append, List.reverse_reverse, hshared,
          List.take_append_drop]

/-- In the directory of the importing file the specifier evaluates to the path of the file. -/
theorem normalize?_relativeSpecifier {importer target : List Char}
    (himporter : IsBelowRoot importer) (htarget : IsBelowRoot target) :
    normalize? (below (parentText importer) (relativeSpecifier importer target)) =
      some target := by
  have hnames := isBelowRoot_iff.1 htarget
  have habove : ∀ name ∈ (importer.splitOn '/').dropLast, FileTree.IsName name :=
    fun name hname => isBelowRoot_iff.1 himporter name (List.dropLast_subset _ hname)
  have hdirectory : segments (parentText importer) = (importer.splitOn '/').dropLast :=
    segments_ofNames habove
  have hrest : ∀ name ∈ (target.splitOn '/').drop
      (commonLength (importer.splitOn '/').dropLast (target.splitOn '/').dropLast),
      FileTree.IsName name := fun name hname => hnames name (List.mem_of_mem_drop hname)
  rw [normalize?_eq_evaluate, relativeSpecifier, segments_below, hdirectory, segments_upward,
    segments_ofNames hrest, evaluate_relative (fun name hname => (habove name hname).2.2.2)
      (fun name hname => (hnames name hname).2.2.2) (take_commonLength_dropLast _ _),
    Option.map_some]
  exact congrArg some (ofNames_splitOn target)

end Path

namespace Resolution

section Candidate

variable {config : Config} {importer target : List Char}

theorem candidate?_of_normalize? {specifier : List Char}
    (h : Path.normalize? (joinedPath config importer specifier) = some target)
    (htarget : Path.IsBelowRoot target) : candidate? config importer specifier = some target := by
  rw [candidate?, h, Option.bind_some, nonEmpty?_eq_some_iff]
  exact ⟨htarget.ne_nil, rfl⟩

theorem candidate?_relativeSpecifier (himporter : Path.IsBelowRoot importer)
    (htarget : Path.IsBelowRoot target) :
    candidate? config importer (Path.relativeSpecifier importer target) = some target := by
  refine candidate?_of_normalize? ?_ htarget
  have hhead : (Path.relativeSpecifier importer target).head? = some '.' := Path.head?_upward _ _
  rw [joinedPath, if_pos hhead]
  exact Path.normalize?_relativeSpecifier himporter htarget

/-- Behind a slash, and if it is no alias, a path stands for itself. -/
theorem candidate?_slash (htarget : Path.IsBelowRoot target)
    (halias : config.aliasFor? ('/' :: target) = none) :
    candidate? config importer ('/' :: target) = some target := by
  refine candidate?_of_normalize? ?_ htarget
  obtain ⟨names, -, hnames, rfl⟩ := htarget
  have hhead : (Path.ofNames names).head? ≠ some '/' := by
    simpa [Path.isAbsolute] using Path.isAbsolute_ofNames hnames
  rw [joinedPath_of_aliasFor?_eq_none (by simp) halias, List.dropWhile_cons_of_pos (by simp),
    Path.dropWhile_slash hhead]
  exact Path.normalize?_ofNames hnames

end Candidate

/-- A candidate with an allowed extension leads to the node at it, however much has been visited. -/
theorem DistinctPaths.settled?_of_allows {setting : Setting} {places : List Place}
    (hdistinct : DistinctPaths places) {path : List Char} (hpath : path ≠ [])
    (hallows : setting.config.allows path = true) {id : Nat} {place : Place}
    (hplace : places[id]? = some place) (hat : place.path.toList = path) (count : Nat) :
    settled? setting places count path = some id := by
  have hfind : find? (table places) (String.ofList path) = some id :=
    hdistinct.find?_table_iff.2 (mem_table.2 ⟨by simpa using hpath, place, hplace, by simp [← hat]⟩)
  rw [settled?, probe, if_pos hallows]
  cases hvisited : find? (table (places.take count)) (String.ofList path) with
  | none => rw [Option.none_or, match?, hfind, Option.some_or]
  | some other =>
    rw [Option.some_or, ← hdistinct.find?_of_take hvisited, hfind]

end Resolution

open Resolution

/-- The numbers of the nodes that show a file. -/
def Document.IsNumber (document : Document) (file : FileEntry) (id : Nat) : Prop :=
  document.places[id]?.map Place.item = some (.file file)

instance (document : Document) (file : FileEntry) (id : Nat) :
    Decidable (document.IsNumber file id) :=
  inferInstanceAs (Decidable (_ = _))

namespace Document.CanonicalInserts

variable {inserts : List (List Char × FileEntry)} (h : CanonicalInserts inserts)

include h

/-- Every inserted file has one node, at its path. -/
theorem exists_number (root : List Char) {entry : List Char × FileEntry} (hentry : entry ∈ inserts) :
    ∃ (id : Nat) (place : Place), ((new root).insertAll inserts).places[id]? = some place ∧
      place.item = .file entry.2 ∧ place.path.toList = entry.1 ∧
      ∀ other, ((new root).insertAll inserts).IsNumber entry.2 other ↔ other = id := by
  obtain ⟨id, place, hplace, hitem⟩ := exists_place_insertAll root hentry
  have hpath : ∀ {other : Place}, other ∈ ((new root).insertAll inserts).places →
      other.item = .file entry.2 → other.path = String.ofList entry.1 := by
    intro other hother hfile
    rw [← h.path_eq entry hentry]
    exact (mem_files_of_mem_places hother hfile).2
  have hat := hpath (List.mem_of_getElem? hplace) hitem
  have hne : String.ofList entry.1 ≠ "" := by
    simpa using (h.isBelowRoot entry hentry).ne_nil
  refine ⟨id, place, hplace, hitem, by rw [hat, String.toList_ofList], fun other => ?_⟩
  constructor
  · intro hother
    obtain ⟨place', hplace', hitem'⟩ := Option.map_eq_some_iff.1 hother
    exact (h.distinctPaths root).eq
      (mem_table.2 ⟨hne, place', hplace', hpath (List.mem_of_getElem? hplace') hitem'⟩)
      (mem_table.2 ⟨hne, place, hplace, hat⟩)
  · rintro rfl
    exact Option.map_eq_some_iff.2 ⟨place, hplace, hitem⟩

end Document.CanonicalInserts

/-- **A full specifier reaches its file.** In a document of files inserted at canonical paths each
file has one node. An import of the relative specifier of a file with an allowed extension, or of its
path behind a slash if no alias takes it, has a link to the node of that file, whatever is on disk.
Nodes are numbered like places. -/
theorem specifier_reaches_file (setting : Setting) (root : List Char)
    {inserts : List (List Char × FileEntry)} (hinserts : Document.CanonicalInserts inserts)
    {importer target : List Char × FileEntry} (himporter : importer ∈ inserts)
    (htarget : target ∈ inserts) (hallows : setting.config.allows target.1 = true)
    {specifier : String} (hspecifier : specifier ∈ importer.2.internalImports)
    (hnames : specifier.toList = Path.relativeSpecifier importer.1 target.1 ∨
      specifier.toList = '/' :: target.1 ∧
        ∀ entry ∈ setting.config.aliases, ¬ entry.lead.toList <+: specifier.toList) :
    let document := (Document.new root).insertAll inserts
    let graph := Graph.ofDocument setting document
    graph.nodes = document.places.mapIdx (fun id place => place.item.node id place.steps.length) ∧
      ∃ source number,
        (∀ id, document.IsNumber importer.2 id ↔ id = source) ∧
        (∀ id, document.IsNumber target.2 id ↔ id = number) ∧
        GraphLink.resolved source number ∈ graph.links ∧
        ∃ targetOf : String → Option Nat,
          (graph.dependencies.filter fun link => link.source = source) =
              importer.2.internalImports.filterMap
                (fun text => (targetOf text).map (GraphLink.resolved source)) ∧
            targetOf specifier = some number := by
  intro document graph
  obtain ⟨source, place, hplace, hitem, -, hsource⟩ := hinserts.exists_number root himporter
  obtain ⟨number, other, hother, -, hat, hnumber⟩ := hinserts.exists_number root htarget
  have hbelow := hinserts.isBelowRoot target htarget
  have hcandidate : candidate? setting.config importer.2.path.toList specifier.toList =
      some target.1 := by
    rw [hinserts.path_eq importer himporter, String.toList_ofList]
    rcases hnames with hnames | ⟨hnames, halias⟩
    · rw [hnames]
      exact candidate?_relativeSpecifier (hinserts.isBelowRoot importer himporter) hbelow
    · rw [hnames] at halias ⊢
      exact candidate?_slash hbelow (aliasFor?_eq_none_iff.2 halias)
  have hreached : target? setting document.places ⟨source, importer.2.path, specifier⟩ =
      some number := by
    rw [target?_eq_bind_settled?, hcandidate, Option.bind_some]
    exact (hinserts.distinctPaths root).settled?_of_allows hbelow.ne_nil hallows hother hat _
  have hlinks : (graph.dependencies.filter fun link => link.source = source) =
      importer.2.internalImports.filterMap fun text =>
        (target? setting document.places ⟨source, importer.2.path, text⟩).map
          (GraphLink.resolved source) := by
    rw [filter_dependencies_ofDocument setting document hplace, hitem, TreeItem.imports,
      List.filterMap_map]
    rfl
  refine ⟨nodes_ofDocument _ _, source, number, hsource, hnumber, ?_, _, hlinks, hreached⟩
  have hmem : GraphLink.resolved source number ∈
      graph.dependencies.filter fun link => link.source = source := by
    rw [hlinks]
    exact List.mem_filterMap.2 ⟨specifier, hspecifier, by rw [hreached, Option.map_some]⟩
  exact List.mem_of_mem_filter (List.mem_of_mem_filter hmem)

/-- Two files in different directories. The importing one is visited first. -/
def siblingInserts : List (List Char × FileEntry) :=
  [("src/lib/util.ts".toList, { name := "util.ts", path := "src/lib/util.ts" }),
    ("src/app/main.ts".toList,
      { name := "main.ts", path := "src/app/main.ts", internalImports := ["../lib/util.ts"] })]

/-- The file is reached though the disk has every file that is asked for. -/
theorem specifier_reaches_sibling :
    Document.CanonicalInserts siblingInserts ∧
      "../lib/util.ts".toList =
        Path.relativeSpecifier "src/app/main.ts".toList "src/lib/util.ts".toList ∧
      GraphLink.resolved 3 5 ∈
        (Graph.ofDocument { config := {}, onDisk := fun _ => true }
          ((Document.new "/app".toList).insertAll siblingInserts)).links := by
  have hinserts : Document.CanonicalInserts siblingInserts :=
    ⟨by decide +kernel, by decide +kernel, by decide +kernel, by decide +kernel⟩
  have hspecifier : "../lib/util.ts".toList =
      Path.relativeSpecifier "src/app/main.ts".toList "src/lib/util.ts".toList := by
    decide +kernel
  refine ⟨hinserts, hspecifier, ?_⟩
  obtain ⟨-, source, number, hsource, hnumber, hlink, -⟩ :=
    specifier_reaches_file { config := {}, onDisk := fun _ => true } "/app".toList hinserts
      (List.mem_cons_of_mem _ List.mem_cons_self) List.mem_cons_self (by decide +kernel)
      List.mem_cons_self (.inl hspecifier)
  obtain rfl := (hsource 3).1 (by decide +kernel)
  obtain rfl := (hnumber 5).1 (by decide +kernel)
  exact hlink

end SourceAtlas
