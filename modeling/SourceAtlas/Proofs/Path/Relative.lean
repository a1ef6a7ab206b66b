import SourceAtlas.Proofs.Path.Cleaning

/-!
# Paths relative to a directory

`Path.relative?` compares components and not texts. So `/a/bc` does not lie below `/a/b`, and `/a//b/`
is the same directory as `/a/b`: the spelling of a path matters only up to its components.

What a slash adds to a path is the segments behind it (`components_append_slash`). Hence names that are
joined to a path follow its components, whatever the path is: empty, the root, relative, or with a slash
at its end (`components_joined_ofNames`, `components_foldl_joined`), and `relative?` finds them again
(`relative?_inverts_joined`).
-/

namespace SourceAtlas.Path

open Text

/-! ### Spellings of a path -/

/-- What stands behind a slash does not change the first segment. -/
theorem head?_splitOn_append_slash (path rest : List Char) :
    ((path ++ '/' :: rest).splitOn '/').head? = (path.splitOn '/').head? := by
  rw [List.splitOn_append_cons_self, List.head?_append_of_ne_nil _ (List.splitOn_ne_nil '/' path)]

/-- Where a path starts is settled by its first segment and the slash behind it. -/
theorem start_append_slash (path rest : List Char) :
    start (path ++ '/' :: rest) = start (path ++ ['/']) := by
  have hhead : isAbsolute (path ++ '/' :: rest) = isAbsolute (path ++ ['/']) := by
    cases path <;> rfl
  rw [start, start, hhead, head?_splitOn_append_slash, head?_splitOn_append_slash]

theorem components_append_slash (path rest : List Char) :
    components (path ++ '/' :: rest) =
      components (path ++ ['/']) ++ (segments rest).map Component.ofSegment := by
  rw [components, components, start_append_slash, segments_append_slash, segments_append_slash,
    List.append_assoc, ← List.map_append, List.append_assoc]
  rfl

/-- A slash at the end of a path does not matter, unless it is all of the path. -/
theorem components_slash {path : List Char} (hne : path ≠ []) :
    components (path ++ ['/']) = components path := by
  have hhead : isAbsolute (path ++ ['/']) = isAbsolute path := by
    rw [isAbsolute, isAbsolute, List.head?_append_of_ne_nil _ hne]
  have hstart : start (path ++ ['/']) = start path := by
    rw [start, start, hhead, head?_splitOn_append_slash]
  have hsegments : segments (path ++ ['/']) = segments path :=
    (segments_append_slash path []).trans (List.append_nil _)
  rw [components, components, hstart, hsegments]

/-- A slash after a slash does not matter. -/
theorem components_slash_slash (before after : List Char) :
    components (before ++ '/' :: '/' :: after) = components (before ++ '/' :: after) := by
  rw [components_append_slash, components_append_slash before after, segments_cons_slash]

/-- A `.` between slashes does not matter. -/
theorem components_slash_dot_slash (before after : List Char) :
    components (before ++ '/' :: '.' :: '/' :: after) = components (before ++ '/' :: after) := by
  have hsegments : segments ('.' :: '/' :: after) = segments after := segments_append_slash ['.'] after
  rw [components_append_slash, components_append_slash before after, hsegments]

/-! ### Joined names -/

/-- The segments of a relative path follow the components of the path that it is joined to. -/
theorem components_joined {base path : List Char} (hbase : base ≠ [])
    (hpath : isAbsolute path = false) :
    components (joined base path) = components base ++ (segments path).map Component.ofSegment := by
  have hjoined : joined base path =
      if base.getLast? = some '/' then base ++ path else base ++ '/' :: path := by
    simp [joined, hpath, hbase]
  rw [hjoined]
  split
  next hlast =>
    obtain ⟨stem, rfl⟩ := List.getLast?_eq_some_iff.1 hlast
    rw [List.append_assoc, List.singleton_append, components_append_slash]
  next => rw [components_append_slash, components_slash hbase]

/-- Names that are joined to a path in one piece follow its components. -/
theorem components_joined_ofNames (base : List Char) {names : List (List Char)}
    (h : ∀ name ∈ names, FileTree.IsName name) :
    components (joined base (ofNames names)) = components base ++ names.map .name := by
  by_cases hbase : base = []
  · have hjoined : joined base (ofNames names) = ofNames names := by simp [joined, hbase]
    rw [hjoined, ofNames,
      components_intercalate fun name hname =>
        ⟨(h name hname).1, (h name hname).2.1, (h name hname).2.2.1⟩,
      map_ofSegment h, hbase]
    rfl
  · rw [components_joined hbase (isAbsolute_ofNames h), segments_ofNames h, map_ofSegment h]

/-- Names that are joined to a path one after another follow its components. -/
theorem components_foldl_joined (base : List Char) {names : List (List Char)}
    (h : ∀ name ∈ names, FileTree.IsName name) :
    components (names.foldl joined base) = components base ++ names.map .name := by
  induction names generalizing base with
  | nil => rw [List.map_nil, List.append_nil, List.foldl_nil]
  | cons name names ih =>
    have hname : ∀ other ∈ [name], FileTree.IsName other := by
      simpa using h name List.mem_cons_self
    have hstep : components (joined base name) = components base ++ [.name name] := by
      have hjoined := components_joined_ofNames base hname
      rwa [ofNames, List.intercalate_singleton] at hjoined
    have hnames : ∀ other ∈ names, FileTree.IsName other := fun other hother =>
      h other (List.mem_cons_of_mem _ hother)
    rw [List.foldl_cons, ih (joined base name) hnames, hstep, List.append_assoc,
      List.singleton_append, List.map_cons]

/-! ### Paths below a directory -/

/-- A path has no relative form exactly if it does not continue the components of the directory. -/
theorem relative?_eq_none_iff (root path : List Char) :
    relative? root path = none ↔ ¬ components root <+: components path := by
  rw [relative?, Option.map_eq_none_iff, Option.eq_none_iff_forall_ne_some, List.IsPrefix, not_exists]
  refine forall_congr' fun rest => not_congr ?_
  exact List.isPrefixOf?_eq_some_iff_append_eq

/-- The names that follow the components of a directory are found. -/
theorem relative?_of_components {root path : List Char} {names : List (List Char)}
    (h : components path = components root ++ names.map .name) :
    relative? root path = some (ofNames names) := by
  have hnames : (names.map Component.name).filterMap Component.name? = names := by
    rw [List.filterMap_map]
    exact List.filterMap_some
  rw [relative?, List.isPrefixOf?_eq_some_iff_append_eq.2 h.symm, Option.map_some, hnames, ofNames]

/-- **The relative path inverts joining.** For every directory, a path has no relative form exactly if
it does not continue the directory's components; names joined to the directory, in one piece or one
after another, are found again, so that different chains of names keep different relative paths.
Repeated slashes, a `.` between slashes and a slash at the end do not matter to the components. -/
theorem relative?_inverts_joined (root : List Char) :
    (∀ path, relative? root path = none ↔ ¬ components root <+: components path) ∧
      (∀ names : List (List Char), (∀ name ∈ names, FileTree.IsName name) →
        relative? root (names.foldl joined root) = some (ofNames names) ∧
          relative? root (joined root (ofNames names)) = some (ofNames names)) ∧
      (∀ names others : List (List Char), (∀ name ∈ names, FileTree.IsName name) →
        (∀ name ∈ others, FileTree.IsName name) →
        (relative? root (names.foldl joined root) = relative? root (others.foldl joined root) ↔
          names = others)) ∧
      ∀ before after,
        components (before ++ '/' :: '/' :: after) = components (before ++ '/' :: after) ∧
          components (before ++ '/' :: '.' :: '/' :: after) = components (before ++ '/' :: after) ∧
          (before ≠ [] → components (before ++ ['/']) = components before) := by
  have hfound : ∀ names : List (List Char), (∀ name ∈ names, FileTree.IsName name) →
      relative? root (names.foldl joined root) = some (ofNames names) := fun names h =>
    relative?_of_components (components_foldl_joined root h)
  refine ⟨relative?_eq_none_iff root, fun names h => ⟨hfound names h, ?_⟩,
    fun names others h hothers => ?_, fun before after => ⟨components_slash_slash before after,
      components_slash_dot_slash before after, components_slash⟩⟩
  · exact relative?_of_components (components_joined_ofNames root h)
  · rw [hfound names h, hfound others hothers, Option.some_inj]
    exact ofNames_inj h hothers

/-- Two files below a directory that is written with slashes and dots to spare, and a path beside it. -/
theorem relative?_awkwardRoot :
    relative? "/a//b/./".toList "/a/bc".toList = none ∧
      relative? "/a//b/./".toList (["src".toList, "x.ts".toList].foldl joined "/a//b/./".toList) =
        some "src/x.ts".toList ∧
      relative? "/a//b/./".toList (joined "/a//b/./".toList (ofNames ["src".toList, "x.ts".toList])) =
        some "src/x.ts".toList ∧
      relative? "/a//b/./".toList (["src".toList, "x.ts".toList].foldl joined "/a//b/./".toList) ≠
        relative? "/a//b/./".toList (["src.x".toList].foldl joined "/a//b/./".toList) := by
  obtain ⟨hnone, hfound, hinj, -⟩ := relative?_inverts_joined "/a//b/./".toList
  have hnames : ∀ name ∈ ["src".toList, "x.ts".toList], FileTree.IsName name := by decide
  refine ⟨(hnone _).2 (by decide), (hfound _ hnames).1, (hfound _ hnames).2, fun hequal => ?_⟩
  exact absurd ((hinj _ _ hnames (by decide)).1 hequal) (by decide)

end SourceAtlas.Path
