import SourceAtlas.Graph.Resolution
import SourceAtlas.Proofs.Path.Evaluation
import SourceAtlas.Proofs.Text.Trimming

/-!
# The paths that imports name

What an import says is first put together to one path (`StandsFor`): with the directory of the
importing file in front of it, with an alias replaced, or as it is. There is always one such path
(`standsFor_iff`). Its value is the path that the import names (`Names`), unless it has no value or
its value is the root.
-/

namespace SourceAtlas

open Text

theorem Path.dropWhile_slash {path : List Char} (h : path.head? ≠ some '/') :
    path.dropWhile (· = '/') = path := by
  refine dropWhile_of_head? ((Option.any_eq_false _ _).2 fun c hc => decide_eq_false ?_)
  rintro rfl
  exact h hc

namespace Resolution

/-! ### What an import stands for -/

/-- What an import stands for as a path, before the path is evaluated. -/
inductive StandsFor (config : Config) (importer : List Char) : List Char → List Char → Prop
  /-- A specifier that starts with a full stop continues the directory of the importing file. -/
  | below {directory file rest : List Char} (himporter : importer = directory ++ '/' :: file)
      (hfile : '/' ∉ file) (hdirectory : directory ≠ []) :
      StandsFor config importer ('.' :: rest) (directory ++ '/' :: '.' :: rest)
  /-- There is nothing to continue if that directory is the root. -/
  | atRoot {file rest : List Char} (himporter : importer = file ∨ importer = '/' :: file)
      (hfile : '/' ∉ file) : StandsFor config importer ('.' :: rest) ('.' :: rest)
  /-- The first alias that a specifier starts with is replaced by its target. -/
  | aliased {before after : List Alias} {entry : Alias} {specifier rest : List Char}
      (hdot : specifier.head? ≠ some '.') (haliases : config.aliases = before ++ entry :: after)
      (hbefore : ∀ other ∈ before, ¬ other.lead.toList <+: specifier)
      (hspecifier : specifier = entry.lead.toList ++ rest) :
      StandsFor config importer specifier (entry.target.toList ++ rest)
  /-- Any other specifier stands for itself, without the slashes at its start. -/
  | plain {specifier rest : List Char} {count : Nat} (hdot : specifier.head? ≠ some '.')
      (haliases : ∀ entry ∈ config.aliases, ¬ entry.lead.toList <+: specifier)
      (hspecifier : specifier = List.replicate count '/' ++ rest) (hrest : rest.head? ≠ some '/') :
      StandsFor config importer specifier rest

section StandsFor

variable {config : Config} {importer specifier path : List Char}

theorem aliasFor?_eq_none_iff : config.aliasFor? specifier = none ↔
    ∀ entry ∈ config.aliases, ¬ entry.lead.toList <+: specifier := by
  simp only [Config.aliasFor?, List.find?_eq_none, List.isPrefixOf_iff_prefix]

theorem aliasFor?_eq_some_iff {entry : Alias} : config.aliasFor? specifier = some entry ↔
    entry.lead.toList <+: specifier ∧ ∃ before after, config.aliases = before ++ entry :: after ∧
      ∀ other ∈ before, ¬ other.lead.toList <+: specifier := by
  simp only [Config.aliasFor?, List.find?_eq_some_iff_append, List.isPrefixOf_iff_prefix,
    Bool.not_eq_true', Bool.eq_false_iff, ne_eq]

/-- The text behind an alias follows its target. -/
theorem joinedPath_of_aliasFor?_eq_some {entry : Alias} {rest : List Char}
    (hdot : (entry.lead.toList ++ rest).head? ≠ some '.')
    (h : config.aliasFor? (entry.lead.toList ++ rest) = some entry) :
    joinedPath config importer (entry.lead.toList ++ rest) = entry.target.toList ++ rest := by
  have hrest : entry.lead.toList.isPrefixOf? (entry.lead.toList ++ rest) = some rest :=
    List.isPrefixOf?_eq_some_iff_append_eq.2 rfl
  simp only [joinedPath, if_neg hdot, h, Alias.expand?, hrest, Option.map_some, Option.getD_some]

theorem joinedPath_of_aliasFor?_eq_none (hdot : specifier.head? ≠ some '.')
    (h : config.aliasFor? specifier = none) :
    joinedPath config importer specifier = specifier.dropWhile (· = '/') := by
  simp only [joinedPath, if_neg hdot, h]

theorem standsFor_joinedPath (config : Config) (importer specifier : List Char) :
    StandsFor config importer specifier (joinedPath config importer specifier) := by
  by_cases hdot : specifier.head? = some '.'
  · obtain ⟨rest, rfl⟩ := List.head?_eq_some_iff.1 hdot
    rw [joinedPath, if_pos hdot]
    rcases Path.notMem_or_eq_parentText_append importer with hslash | ⟨file, hfile, himporter⟩
    · rw [Path.parentText_of_notMem hslash]
      exact .atRoot (.inl rfl) hslash
    · by_cases hempty : Path.parentText importer = []
      · rw [hempty] at himporter ⊢
        exact .atRoot (.inr himporter) hfile
      · rw [Path.below, if_neg (by simpa using hempty)]
        exact .below himporter hfile hempty
  · -- the aliases are tried in their order, and the first that fits is the one that is found
    cases hfind : config.aliasFor? specifier with
    | some entry =>
      obtain ⟨⟨rest, rfl⟩, before, after, haliases, hbefore⟩ := aliasFor?_eq_some_iff.1 hfind
      rw [joinedPath_of_aliasFor?_eq_some hdot hfind]
      exact .aliased hdot haliases hbefore rfl
    | none =>
      have hslashes : specifier.takeWhile (· = '/') =
          List.replicate (specifier.takeWhile (· = '/')).length '/' :=
        List.eq_replicate_of_mem fun c hc => by simpa using List.mem_takeWhile_imp hc
      have hspecifier : specifier = List.replicate (specifier.takeWhile (· = '/')).length '/' ++
          specifier.dropWhile (· = '/') := by
        rw [← hslashes, List.takeWhile_append_dropWhile]
      have hrest : (specifier.dropWhile (· = '/')).head? ≠ some '/' := by
        intro hhead
        simpa [hhead] using any_head?_dropWhile (· = '/') specifier
      rw [joinedPath_of_aliasFor?_eq_none hdot hfind]
      exact .plain hdot (aliasFor?_eq_none_iff.1 hfind) hspecifier hrest

/-- An import stands for one path. -/
theorem standsFor_iff : StandsFor config importer specifier path ↔
    path = joinedPath config importer specifier := by
  refine ⟨fun h => ?_, fun h => h ▸ standsFor_joinedPath config importer specifier⟩
  cases h with
  | below himporter hfile hdirectory =>
    rw [joinedPath, List.head?_cons, if_pos rfl, himporter, Path.parentText_append_slash _ hfile,
      Path.below, if_neg (by simpa using hdirectory)]
  | atRoot himporter hfile =>
    have hparent : Path.parentText importer = [] := by
      rcases himporter with rfl | rfl
      · exact Path.parentText_of_notMem hfile
      · exact Path.parentText_append_slash [] hfile
    rw [joinedPath, List.head?_cons, if_pos rfl, hparent]
    rfl
  | aliased hdot haliases hbefore hspecifier =>
    have hfind := aliasFor?_eq_some_iff.2 ⟨⟨_, hspecifier.symm⟩, _, _, haliases, hbefore⟩
    subst hspecifier
    exact (joinedPath_of_aliasFor?_eq_some hdot hfind).symm
  | plain hdot haliases hspecifier hrest =>
    rw [joinedPath_of_aliasFor?_eq_none hdot (aliasFor?_eq_none_iff.2 haliases), hspecifier,
      List.dropWhile_append_of_pos (by simp [List.mem_replicate]), Path.dropWhile_slash hrest]

end StandsFor

/-! ### What an import names -/

/-- The paths below the root that an import names: the value of the path that it stands for, unless
that is the root. -/
def Names (config : Config) (importer specifier path : List Char) : Prop :=
  ∃ joined, StandsFor config importer specifier joined ∧ Path.value? joined = some path ∧ path ≠ []

section Names

variable {config : Config} {importer specifier path : List Char}

theorem candidate?_eq_some_iff :
    candidate? config importer specifier = some path ↔ Names config importer specifier path := by
  simp only [Names, standsFor_iff, exists_eq_left, candidate?, Path.normalize?_eq_value?,
    Option.bind_eq_some_iff, nonEmpty?_eq_some_iff]
  constructor
  · rintro ⟨value, hvalue, hne, rfl⟩
    exact ⟨hvalue, hne⟩
  · rintro ⟨hvalue, hne⟩
    exact ⟨path, hvalue, hne, rfl⟩

theorem candidate?_ne_nil (h : candidate? config importer specifier = some path) : path ≠ [] := by
  obtain ⟨-, -, -, hne⟩ := candidate?_eq_some_iff.1 h
  exact hne

/-- A path itself and the paths that it may stand for are the path with nothing or an extension
behind it. -/
theorem mem_cons_extended {p : List Char} : p ∈ path :: extended config path ↔
    p = path ∨ ∃ extension ∈ config.extensions, p = path ++ extension.toList := by
  simp only [extended, List.mem_cons, List.mem_map, eq_comm]

end Names

end Resolution

end SourceAtlas
