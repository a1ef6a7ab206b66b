import SourceAtlas.Proofs.Exclusion.StandardNames

/-!
# What an excluded directory passes on

The rules are asked about a path and the directories above it, nearest first, but the configured
patterns only about the path itself. So a path below an excluded directory is excluded unless a rule
keeps something between the two, or the directory is excluded by patterns only, none of which
matches the path.
-/

namespace SourceAtlas

open Text

namespace Path

/-! ### The directories above a path -/

theorem dropIdle_suffix (absolute : Bool) (segments : List (List Char)) :
    dropIdle absolute segments <:+ segments := by
  induction segments with
  | nil => exact List.suffix_refl []
  | cons segment before ih =>
    rw [dropIdle]
    split
    · exact ih.trans (List.suffix_cons segment before)
    · exact List.suffix_refl _

/-- Segments that do not matter have no directories of their own. -/
theorem segmentsAbove_dropIdle (absolute : Bool) (segments : List (List Char)) :
    segmentsAbove absolute (dropIdle absolute segments) = segmentsAbove absolute segments := by
  induction segments with
  | nil => rfl
  | cons segment before ih =>
    by_cases hidle : isIdle absolute segment before = true
    · rw [dropIdle, if_pos hidle, ih, segmentsAbove, if_pos hidle]
    · rw [dropIdle, if_neg hidle]

/-- Segments, last first, that are found again in the relative path that they make. -/
structure MakesRelative (segments : List (List Char)) : Prop where
  noSlash : ∀ segment ∈ segments, '/' ∉ segment
  first : ∀ first, segments.getLast? = some first → first ≠ []

theorem MakesRelative.of_suffix {segments rest : List (List Char)} (h : MakesRelative segments)
    (hsuffix : rest <:+ segments) : MakesRelative rest where
  noSlash segment hmem := h.noSlash segment (hsuffix.subset hmem)
  first first hfirst := by
    obtain ⟨nearer, rfl⟩ := hsuffix
    refine h.first first ?_
    rw [List.getLast?_append, hfirst, Option.some_or]

theorem makesRelative_splitOn {path : List Char} (hne : path ≠ [])
    (hrelative : isAbsolute path = false) : MakesRelative (path.splitOn '/').reverse where
  noSlash segment hmem := notMem_of_mem_splitOn (List.mem_reverse.1 hmem)
  first first hfirst := by
    obtain ⟨c, cs, rfl⟩ := List.exists_cons_of_ne_nil hne
    have hc : c ≠ '/' := by simpa [isAbsolute] using hrelative
    obtain ⟨part, parts, hparts⟩ := List.exists_cons_of_ne_nil (List.splitOn_ne_nil '/' cs)
    rw [List.getLast?_reverse, List.splitOn_cons_eq_if_modifyHead, if_neg (by simpa using hc), hparts,
      List.modifyHead_cons, List.head?_cons, Option.some.injEq] at hfirst
    simp [← hfirst]

/-- The directories above the relative path of segments, which are given last first. -/
def textsAbove (segments : List (List Char)) : List (List Char) :=
  (segmentsAbove false segments).map fun above => ofNames above.reverse

theorem ancestors_eq_textsAbove {path : List Char} (hrelative : isAbsolute path = false) :
    ancestors path = textsAbove (path.splitOn '/').reverse := by
  rw [ancestors]
  · rfl
  · rintro body rfl
    cases hrelative

theorem textsAbove_dropIdle (segments : List (List Char)) :
    textsAbove (dropIdle false segments) = textsAbove segments := by
  rw [textsAbove, segmentsAbove_dropIdle, textsAbove]

theorem textsAbove_cons (segment : List Char) (before : List (List Char)) :
    textsAbove (segment :: before) = if isIdle false segment before then textsAbove before
      else ofNames (dropIdle false before).reverse :: textsAbove before := by
  rw [textsAbove, segmentsAbove]
  split <;> rfl

theorem MakesRelative.isAbsolute_ofNames {segments : List (List Char)}
    (h : MakesRelative segments) : isAbsolute (ofNames segments.reverse) = false := by
  cases hnames : segments.reverse with
  | nil => rfl
  | cons first rest =>
    have hsegments : segments = (first :: rest).reverse := by rw [← hnames, List.reverse_reverse]
    obtain ⟨c, cs, rfl⟩ :=
      List.exists_cons_of_ne_nil (h.first first (by rw [hsegments, List.getLast?_reverse]; rfl))
    have hslash := h.noSlash (c :: cs) (by simp [hsegments])
    have hc : c ≠ '/' := by
      rintro rfl
      exact hslash (List.mem_cons_self ..)
    cases rest with
    | nil => simpa [ofNames, isAbsolute] using hc
    | cons next rest => simpa [ofNames, List.intercalate_cons_cons, isAbsolute] using hc

theorem MakesRelative.ancestors_ofNames {segments : List (List Char)}
    (h : MakesRelative segments) : ancestors (ofNames segments.reverse) = textsAbove segments := by
  rw [ancestors_eq_textsAbove h.isAbsolute_ofNames]
  by_cases hne : segments = []
  · subst hne
    rfl
  · have hslash : ∀ part ∈ segments.reverse, '/' ∉ part := fun part hpart =>
      h.noSlash part (List.mem_reverse.1 hpart)
    rw [ofNames, List.splitOn_intercalate '/' hslash (by simpa using hne), List.reverse_reverse]

/-- From a directory above a path on, the directories above the path are those above it. -/
theorem textsAbove_of_mem {segments : List (List Char)} (h : MakesRelative segments)
    {directory : List Char} (hmem : directory ∈ textsAbove segments) :
    textsAbove segments =
      (textsAbove segments).takeWhile (· ≠ directory) ++ directory :: ancestors directory := by
  induction segments with
  | nil => cases hmem
  | cons segment before ih =>
    have hbefore := h.of_suffix (List.suffix_cons segment before)
    rw [textsAbove_cons] at hmem ⊢
    split at hmem
    next hidle =>
      rw [if_pos hidle]
      exact ih hbefore hmem
    next hidle =>
      rw [if_neg hidle]
      by_cases hnearest : ofNames (dropIdle false before).reverse = directory
      · have habove := (hbefore.of_suffix (dropIdle_suffix false before)).ancestors_ofNames
        rw [textsAbove_dropIdle, hnearest] at habove
        simp [hnearest, habove]
      · have hrest := ih hbefore ((List.mem_cons.1 hmem).resolve_left (Ne.symm hnearest))
        rw [List.takeWhile_cons_of_pos (by simpa using hnearest), List.cons_append, ← hrest]

theorem ancestors_of_mem {path directory : List Char} (hrelative : isAbsolute path = false)
    (hmem : directory ∈ ancestors path) : ancestors path =
      (ancestors path).takeWhile (· ≠ directory) ++ directory :: ancestors directory := by
  have hne : path ≠ [] := by
    rintro rfl
    cases hmem
  rw [ancestors_eq_textsAbove hrelative] at hmem ⊢
  exact textsAbove_of_mem (makesRelative_splitOn hne hrelative) hmem

theorem isIdle_of_isName {segment : List Char} (h : FileTree.IsName segment) (absolute : Bool)
    (before : List (List Char)) : isIdle absolute segment before = false := by
  simp [isIdle, h.1, h.2.2.1]

theorem dropIdle_of_isName {segments : List (List Char)}
    (h : ∀ segment ∈ segments, FileTree.IsName segment) (absolute : Bool) :
    dropIdle absolute segments = segments := by
  cases segments with
  | nil => rfl
  | cons segment before =>
    rw [dropIdle, isIdle_of_isName (h segment (List.mem_cons_self ..)), if_neg Bool.false_ne_true]

theorem mem_textsAbove {nearer segments : List (List Char)} (hne : nearer ≠ [])
    (h : ∀ segment ∈ nearer ++ segments, FileTree.IsName segment) :
    ofNames segments.reverse ∈ textsAbove (nearer ++ segments) := by
  induction nearer with
  | nil => exact absurd rfl hne
  | cons segment nearer ih =>
    have hrest : ∀ segment ∈ nearer ++ segments, FileTree.IsName segment :=
      fun s hs => h s (List.mem_cons_of_mem segment hs)
    rw [List.cons_append, textsAbove_cons, isIdle_of_isName (h segment (List.mem_cons_self ..)),
      if_neg Bool.false_ne_true, dropIdle_of_isName hrest]
    by_cases hnearer : nearer = []
    · subst hnearer
      exact List.mem_cons_self ..
    · exact List.mem_cons_of_mem _ (ih hnearer hrest)

/-- A path of names lies below every chain of names that it starts with. -/
theorem ofNames_mem_ancestors {names more : List (List Char)} (hmore : more ≠ [])
    (h : ∀ name ∈ names ++ more, FileTree.IsName name) :
    ofNames names ∈ ancestors (ofNames (names ++ more)) := by
  have hmakes : MakesRelative (names ++ more).reverse := by
    refine ⟨fun s hs => (h s (List.mem_reverse.1 hs)).2.1, fun first hfirst => ?_⟩
    exact (h first (List.mem_reverse.1 (List.mem_of_getLast? hfirst))).1
  have habove := hmakes.ancestors_ofNames
  rw [List.reverse_reverse] at habove
  have hmem : ofNames names.reverse.reverse ∈ textsAbove (more.reverse ++ names.reverse) :=
    mem_textsAbove (by simpa using hmore) fun s hs => h s (by simpa [or_comm] using hs)
  rwa [List.reverse_reverse, ← List.reverse_append, ← habove] at hmem

end Path

namespace Exclusion

/-! ### Between a directory and a path -/

/-- What the rules say about a path or the nearest directory of which they say something, up to a
directory that is not asked any more. -/
def verdictBelow? (exclusion : Exclusion) (directory path : List Char) (isDirectory : Bool) :
    Option Verdict :=
  (IgnoreRule.verdict? exclusion.rules path isDirectory).or
    (((Path.ancestors path).takeWhile (· ≠ directory)).findSome? fun nearer =>
      IgnoreRule.verdict? exclusion.rules nearer true)

/-- Where the rules say nothing below a directory, they say of a path what they say of the
directory. -/
theorem verdict?_eq_or (exclusion : Exclusion) {directory path : List Char}
    (hrelative : Path.isAbsolute path = false) (hbelow : directory ∈ Path.ancestors path)
    (isDirectory : Bool) : exclusion.verdict? path isDirectory =
      (exclusion.verdictBelow? directory path isDirectory).or
        (exclusion.verdict? directory true) := by
  rw [verdict?, verdictBelow?, Option.or_assoc]
  congr 1
  conv_lhs => rw [Path.ancestors_of_mem hrelative hbelow]
  rw [List.findSome?_append, List.findSome?_cons, verdict?]
  cases IgnoreRule.verdict? exclusion.rules directory true <;> rfl

/-- What is kept below a directory is kept by a rule. -/
theorem exists_keeps_of_verdictBelow? {exclusion : Exclusion} {directory path : List Char}
    {isDirectory : Bool}
    (h : exclusion.verdictBelow? directory path isDirectory = some .kept) :
    ∃ rule ∈ exclusion.rules, rule.keeps = true := by
  rcases Option.or_eq_some_iff.1 h with hpath | ⟨-, habove⟩
  · exact IgnoreRule.exists_keeps_of_verdict? hpath
  · obtain ⟨nearer, -, hnearer⟩ := List.exists_of_findSome?_eq_some habove
    exact IgnoreRule.exists_keeps_of_verdict? hnearer

theorem excludes?_eq_some_false_iff {exclusion : Exclusion} {path : List Char}
    (hrelative : Path.isAbsolute (withoutDot path) = false) (hne : path ≠ [])
    (isDirectory : Bool) : exclusion.excludes? path isDirectory = some false ↔
      (∀ glob ∈ exclusion.globs, glob.matchesPath path = false) ∧
        exclusion.verdict? (withoutDot path) isDirectory ≠ some .ignored := by
  rw [excludes?, hrelative, if_neg Bool.false_ne_true, Option.some.injEq, excludes]
  simp [hne, and_comm]

/-- A path below a directory is not excluded if no pattern matches it and the rules keep it below the
directory or, where they say nothing there, do not exclude the directory. -/
theorem escapes_iff {exclusion : Exclusion} {directory path : List Char}
    (hrelative : Path.isAbsolute (withoutDot path) = false)
    (hbelow : withoutDot directory ∈ Path.ancestors (withoutDot path)) (isDirectory : Bool) :
    exclusion.excludes? path isDirectory = some false ↔
      (∀ glob ∈ exclusion.globs, glob.matchesPath path = false) ∧
        (exclusion.verdictBelow? (withoutDot directory) (withoutDot path) isDirectory =
            some .kept ∨
          exclusion.verdictBelow? (withoutDot directory) (withoutDot path) isDirectory = none ∧
            exclusion.verdict? (withoutDot directory) true ≠ some .ignored) := by
  have hne : path ≠ [] := by
    rintro rfl
    cases hbelow
  rw [excludes?_eq_some_false_iff hrelative hne,
    exclusion.verdict?_eq_or hrelative hbelow isDirectory]
  refine and_congr_right fun _ => ?_
  cases exclusion.verdictBelow? (withoutDot directory) (withoutDot path) isDirectory with
  | none => simp
  | some verdict => cases verdict <;> simp

/-- A path that is excluded is excluded by the rules or by a pattern. -/
theorem excluded_cases {exclusion : Exclusion} {path : List Char} {isDirectory : Bool}
    (h : exclusion.excludes? path isDirectory = some true) :
    exclusion.verdict? (withoutDot path) isDirectory = some .ignored ∨
      ∃ glob ∈ exclusion.globs, glob.matchesPath path = true := by
  rw [excludes?] at h
  split at h
  · cases h
  · rw [Option.some.injEq, excludes, Bool.and_eq_true, Bool.or_eq_true, decide_eq_true_iff,
      List.any_eq_true] at h
    exact h.2

/-- An excluded directory passes its exclusion on to a path below it with two exceptions, and no
pattern may match the path in either: a rule keeps the path or a directory between the two, or the
directory is excluded by patterns only and the rules say nothing below it. So rules that keep
nothing pass on all that they exclude. -/
theorem excludes?_below {config : Config} {ignoreFile : Option (List UInt8)}
    {exclusion : Exclusion} (hbuild : build config ignoreFile = .ok exclusion)
    {directory path : List Char} (hrelative : Path.isAbsolute (withoutDot path) = false)
    (hbelow : withoutDot directory ∈ Path.ancestors (withoutDot path))
    (hexcluded : exclusion.excludes? directory true = some true) (isDirectory : Bool) :
    (exclusion.excludes? path isDirectory = some false ↔
      (∀ glob ∈ exclusion.globs, glob.matchesPath path = false) ∧
        (exclusion.verdictBelow? (withoutDot directory) (withoutDot path) isDirectory =
            some .kept ∨
          exclusion.verdictBelow? (withoutDot directory) (withoutDot path) isDirectory = none ∧
            exclusion.verdict? (withoutDot directory) true ≠ some .ignored ∧
            ∃ glob ∈ exclusion.globs, glob.matchesPath directory = true)) ∧
    ((∀ rule ∈ IgnoreFile.rules (ignoreFile.getD []), rule.keeps = false) →
      exclusion.verdict? (withoutDot directory) true = some .ignored →
      exclusion.excludes? path isDirectory = some true) := by
  have hescapes := @escapes_iff exclusion directory path hrelative hbelow isDirectory
  constructor
  · rw [hescapes]
    refine and_congr_right fun _ => or_congr_right (and_congr_right fun _ => ?_)
    -- what the rules do not exclude is excluded by a pattern
    exact ⟨fun h => ⟨h, (excluded_cases hexcluded).resolve_left h⟩, And.left⟩
  · intro hkeeps hignored
    have hanswer : exclusion.excludes? path isDirectory ≠ some false := by
      intro hfalse
      rcases (hescapes.1 hfalse).2 with hkept | ⟨-, hrules⟩
      · obtain ⟨rule, hrule, hkeep⟩ := exists_keeps_of_verdictBelow? hkept
        rw [(build_eq_ok_iff.1 hbuild).2, List.mem_append] at hrule
        have hdrops : rule.keeps = false :=
          hrule.elim keeps_of_mem_standardRules (hkeeps rule)
        rw [hdrops] at hkeep
        cases hkeep
      · exact hrules hignored
    rw [excludes?, hrelative, if_neg Bool.false_ne_true] at hanswer ⊢
    simpa using hanswer

/-- Settings with a pattern that matches a directory but nothing below it. -/
def patternConfig : Config := { excludedPaths := ["legacy"] }

/-- Rules that exclude a directory and keep a file in it. -/
def keepingRules : List UInt8 := "lib/\n!lib/keep.ts\n".toUTF8.toList

theorem exists_build_patternConfig : ∃ exclusion,
    build patternConfig (some keepingRules) = .ok exclusion ∧
      exclusion.excludes? "legacy".toList true = some true ∧
      exclusion.excludes? "legacy/a.ts".toList false = some false ∧
      exclusion.excludes? "lib".toList true = some true ∧
      exclusion.excludes? "lib/keep.ts".toList false = some false := by
  have hanswers : ((build patternConfig (some keepingRules)).map fun exclusion =>
      (exclusion.excludes? "legacy".toList true,
        exclusion.excludes? "legacy/a.ts".toList false,
        exclusion.excludes? "lib".toList true,
        exclusion.excludes? "lib/keep.ts".toList false)).toOption =
          some (some true, some false, some true, some false) := by
    decide +kernel
  match hbuild : build patternConfig (some keepingRules) with
  | .error error =>
    rw [hbuild] at hanswers
    cases hanswers
  | .ok exclusion =>
    rw [hbuild] at hanswers
    simp only [Except.map, Except.toOption, Option.some.injEq, Prod.mk.injEq] at hanswers
    exact ⟨exclusion, rfl, hanswers⟩

theorem mem_ancestors_legacy :
    withoutDot "legacy".toList ∈ Path.ancestors (withoutDot "legacy/a.ts".toList) :=
  @Path.ofNames_mem_ancestors ["legacy".toList] ["a.ts".toList] (by decide) (by decide)

theorem excludes?_below_legacy : ∃ exclusion,
    build patternConfig (some keepingRules) = .ok exclusion ∧
      Path.isAbsolute (withoutDot "legacy/a.ts".toList) = false ∧
      withoutDot "legacy".toList ∈ Path.ancestors (withoutDot "legacy/a.ts".toList) ∧
      exclusion.excludes? "legacy".toList true = some true ∧
      (∀ glob ∈ exclusion.globs, glob.matchesPath "legacy/a.ts".toList = false) ∧
      (exclusion.verdictBelow? (withoutDot "legacy".toList) (withoutDot "legacy/a.ts".toList)
          false = some .kept ∨
        exclusion.verdictBelow? (withoutDot "legacy".toList) (withoutDot "legacy/a.ts".toList)
            false = none ∧
          exclusion.verdict? (withoutDot "legacy".toList) true ≠ some .ignored ∧
          ∃ glob ∈ exclusion.globs, glob.matchesPath "legacy".toList = true) := by
  obtain ⟨exclusion, hbuild, hexcluded, hescapes, -⟩ := exists_build_patternConfig
  exact ⟨exclusion, hbuild, by decide, mem_ancestors_legacy, hexcluded,
    (excludes?_below hbuild (by decide) mem_ancestors_legacy hexcluded false).1.1 hescapes⟩

/-- A path below an excluded directory need not be excluded, neither where a pattern nor where a rule
excludes the directory. -/
theorem exists_escapes_below : ∃ exclusion,
    build patternConfig (some keepingRules) = .ok exclusion ∧
      (withoutDot "legacy".toList ∈ Path.ancestors (withoutDot "legacy/a.ts".toList) ∧
        exclusion.excludes? "legacy".toList true = some true ∧
        exclusion.excludes? "legacy/a.ts".toList false = some false) ∧
      withoutDot "lib".toList ∈ Path.ancestors (withoutDot "lib/keep.ts".toList) ∧
        exclusion.excludes? "lib".toList true = some true ∧
        exclusion.excludes? "lib/keep.ts".toList false = some false := by
  obtain ⟨exclusion, hbuild, hlegacy, hfile, hlib, hkept⟩ := exists_build_patternConfig
  have hbelow : withoutDot "lib".toList ∈ Path.ancestors (withoutDot "lib/keep.ts".toList) :=
    @Path.ofNames_mem_ancestors ["lib".toList] ["keep.ts".toList] (by decide) (by decide)
  exact ⟨exclusion, hbuild, ⟨mem_ancestors_legacy, hlegacy, hfile⟩, hbelow, hlib, hkept⟩

end Exclusion

end SourceAtlas
