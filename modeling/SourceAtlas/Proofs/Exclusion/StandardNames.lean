import Mathlib.Data.List.TakeWhile
import SourceAtlas.Proofs.Project.SourceFiles

/-!
# The names that are left out of every project

The rules for the standard names are plain: each is one name without wildcards, and leaves out every
path that ends in this name. They come before the rules of the ignore file, and the last rule that
matches decides. So a standard name can only get into a project if the ignore file keeps it.
-/

namespace SourceAtlas

open Text

/-! ### Plain patterns -/

namespace Glob

/-- The characters that have a meaning in patterns. -/
def wildcards : List Char := ['?', '*', '{', '}', ',', '\\', '[']

/-- A text without wildcards is read as its characters. -/
theorem parseOnto_of_plain (options : GlobOptions) {cs : List Char} (h : ∀ c ∈ cs, c ∉ wildcards)
    (draft : GlobDraft) (classes : Bool) (before : Option Char) :
    parseOnto options draft classes before cs =
      .ok { draft with tokens := (cs.map .literal).reverse ++ draft.tokens } := by
  induction cs generalizing draft before with
  | nil => rw [parseOnto]; rfl
  | cons c cs ih =>
    have hc : c ∉ wildcards := h c (List.mem_cons_self ..)
    simp only [wildcards, List.mem_cons, List.not_mem_nil, or_false, not_or] at hc
    rw [parseOnto]
    · rw [if_neg (by simp [hc]), ih fun d hd => h d (List.mem_cons_of_mem c hd)]
      simp [GlobDraft.push]
    all_goals simp [hc]

/-- Two stars and a slash in front of a plain text stand for the directories above it. -/
theorem parse_of_plain (options : GlobOptions) {cs : List Char} (h : ∀ c ∈ cs, c ∉ wildcards) :
    parse options ('*' :: '*' :: '/' :: cs) =
      .ok { text := '*' :: '*' :: '/' :: cs
            tokens := .leadingDirs :: cs.map .literal
            stopsAtSlash := options.stopsAtSlash } := by
  have hread : parseOnto options {} true none ('*' :: '*' :: '/' :: cs) =
      .ok { tokens := (cs.map .literal).reverse ++ [.leadingDirs] } := by
    rw [parseOnto]
    exact parseOnto_of_plain options h _ _ _
  rw [parse, hread]
  simp [GlobDraft.inGroup]

end Glob

theorem mem_restsAfterSlash (before rest : List UInt8) :
    rest ∈ restsAfterSlash (before ++ slash :: rest) := by
  induction before with
  | nil => simp [restsAfterSlash]
  | cons b before ih =>
    rw [List.cons_append, restsAfterSlash]
    split
    · exact List.mem_cons_of_mem _ ih
    · exact ih

/-- Characters that stand for themselves take their own bytes. -/
theorem mem_sequenceRests_literals (stopsAtSlash : Bool) {cs : List Char} {rest : List UInt8}
    {rests : List (List UInt8)} (h : bytes cs ++ rest ∈ rests) :
    rest ∈ sequenceRests stopsAtSlash (cs.map .literal) rests := by
  induction cs generalizing rests with
  | nil => simpa [bytes, sequenceRests] using h
  | cons c cs ih =>
    rw [List.map_cons, sequenceRests]
    refine ih (List.mem_eraseDups.2 (List.mem_flatMap.2 ⟨_, h, ?_⟩))
    rw [GlobToken.rests, bytes, List.flatMap_cons, List.append_assoc,
      List.isPrefixOf?_eq_some_iff_append_eq.2 rfl]
    simp [bytes]

/-! ### Plain rules -/

namespace IgnoreRule

/-- Whether a line stands for a name and nothing else: none of its characters has a meaning in rules
or is blank, and it does not end in a full stop. -/
def IsPlain (line : List Char) : Prop :=
  line ≠ [] ∧ line.getLast? ≠ some '.' ∧
    ∀ c ∈ line, c ∉ '/' :: '!' :: '#' :: Glob.wildcards ∧ isBlank c = false

-- the characters of the line are looked at, not all characters there are
instance : DecidablePred IsPlain := fun line =>
  have : Decidable (∀ c ∈ line, c ∉ '/' :: '!' :: '#' :: Glob.wildcards ∧ isBlank c = false) :=
    List.decidableBAll _ line
  inferInstanceAs (Decidable (line ≠ [] ∧ line.getLast? ≠ some '.' ∧
    ∀ c ∈ line, c ∉ '/' :: '!' :: '#' :: Glob.wildcards ∧ isBlank c = false))

/-- The rule that leaves out a name in every directory. -/
def ofName (name : List Char) : IgnoreRule where
  glob := {
    text := '*' :: '*' :: '/' :: name
    tokens := .leadingDirs :: name.map .literal
    stopsAtSlash := true }

theorem trimLine_of_plain {line : List Char} (h : IsPlain line) : trimLine line = line := by
  obtain ⟨-, -, hchars⟩ := h
  have hescape : ['\\', ' '].isSuffixOf line = false := by
    rw [Bool.eq_false_iff, Ne, List.isSuffixOf_iff_suffix]
    intro hsuffix
    exact (hchars '\\' (hsuffix.subset (List.mem_cons_self ..))).1 (by decide)
  have hend : line.reverse.dropWhile isBlank = line.reverse :=
    List.dropWhile_eq_self_iff.2 fun hpos => by
      simpa using (hchars _ (List.mem_reverse.1 (List.getElem_mem hpos))).2
  rw [trimLine, hescape, if_neg Bool.false_ne_true, trimEnd, dropEndWhile, hend, List.reverse_reverse]

theorem marks_of_plain {line : List Char} (h : IsPlain line) : marks line = (false, false, line) := by
  obtain ⟨hne, -, hchars⟩ := h
  obtain ⟨c, rest, rfl⟩ := List.exists_cons_of_ne_nil hne
  have hc := (hchars c (List.mem_cons_self ..)).1
  simp only [Glob.wildcards, List.mem_cons, List.not_mem_nil, or_false, not_or] at hc
  simp [marks, hc]

theorem directoryMark_of_plain {line : List Char} (h : IsPlain line) :
    directoryMark line = (line, false) := by
  have hslash : '/' ∉ line := fun hmem => (h.2.2 _ hmem).1 (by decide)
  have hstrip : stripSuffix? ['/'] line = none := by
    rw [Option.eq_none_iff_forall_ne_some]
    intro rest hrest
    exact hslash (by simp [← List.isSuffixOf?_eq_some_iff_append_eq.1 hrest])
  rw [directoryMark, hstrip]

theorem anchored_of_plain {line : List Char} (h : IsPlain line) :
    anchored false line = '*' :: '*' :: '/' :: line := by
  obtain ⟨hne, -, hchars⟩ := h
  have hslash : '/' ∉ line := fun hmem => (hchars _ hmem).1 (by decide)
  have hstar : '*' ∉ line := fun hmem => (hchars _ hmem).1 (by decide)
  have hpair : line ≠ ['*', '*'] := fun heq => hstar (by simp [heq])
  have hanywhere : (!false && !line.contains '/' && line ≠ ['*', '*']) = true := by
    simp [hslash, hpair]
  -- the pattern ends like the name, which has no star
  have hsuffix : "/**".toList.isSuffixOf ("**/".toList ++ line) = false := by
    rw [Bool.eq_false_iff, Ne, List.isSuffixOf_iff_suffix]
    rintro ⟨before, heq⟩
    have hlast := congrArg List.getLast? heq
    rw [List.getLast?_append_of_ne_nil _ (by decide), List.getLast?_append_of_ne_nil _ hne] at hlast
    exact hstar (List.mem_of_getLast? hlast.symm)
  simp only [anchored]
  rw [if_pos hanywhere, hsuffix, if_neg Bool.false_ne_true]
  rfl

theorem parse?_of_plain {name : List Char} (h : IsPlain name) : parse? name = some (ofName name) := by
  have hcomment : ['#'].isPrefixOf name = false := by
    rw [Bool.eq_false_iff, Ne, List.isPrefixOf_iff_prefix]
    intro hprefix
    have hmem : '#' ∈ name := hprefix.subset (List.mem_cons_self ..)
    exact (h.2.2 _ hmem).1 (by decide)
  have hglob := Glob.parse_of_plain options fun c hc hwild =>
    (h.2.2 c hc).1 (by simp [hwild])
  simp only [parse?, trimLine_of_plain h, marks_of_plain h, directoryMark_of_plain h,
    anchored_of_plain h, hglob, hcomment]
  simp [h.1, ofName, options]

theorem canMatch_ofName {name : List Char} (h : IsPlain name) :
    (ofName name).glob.canMatch = true := by
  obtain ⟨hne, hlast, -⟩ := h
  have hend : (ofName name).glob.tokens.getLast?.bind Glob.literal? = name.getLast? := by
    show ([GlobToken.leadingDirs] ++ name.map GlobToken.literal).getLast?.bind Glob.literal? = _
    rw [List.getLast?_append_of_ne_nil _ (by simpa using hne), List.getLast?_map]
    cases name.getLast? <;> rfl
  rw [Glob.canMatch, hend]
  simp [hlast]

/-- A plain rule matches every path that ends in its name. -/
theorem applies_ofName {name : List Char} (h : IsPlain name) (above : List (List Char))
    (isDirectory : Bool) :
    (ofName name).applies (Path.ofNames (above ++ [name])) isDirectory = true := by
  have hdirs : bytes name ++ [] ∈
      GlobToken.leadingDirs.rests true (bytes (Path.ofNames (above ++ [name]))) := by
    rw [List.append_nil, GlobToken.rests]
    by_cases habove : above = []
    · subst habove
      rw [List.nil_append, Path.ofNames, List.intercalate_singleton]
      exact List.mem_cons_self ..
    · rw [Path.ofNames, intercalate_concat habove, bytes, List.flatMap_append]
      exact List.mem_cons_of_mem _ (mem_restsAfterSlash (bytes (['/'].intercalate above)) (bytes name))
  have hrests : [] ∈ sequenceRests true (ofName name).glob.tokens
      [bytes (Path.ofNames (above ++ [name]))] := by
    show [] ∈ sequenceRests true (.leadingDirs :: name.map .literal) _
    rw [sequenceRests]
    refine mem_sequenceRests_literals true (List.mem_eraseDups.2 ?_)
    rwa [List.flatMap_singleton]
  have hcan := canMatch_ofName h
  obtain ⟨c, rest, rfl⟩ := List.exists_cons_of_ne_nil h.1
  have hmatches : (ofName (c :: rest)).glob.matchesPath (Path.ofNames (above ++ [c :: rest])) =
      ((ofName (c :: rest)).glob.canMatch && (sequenceRests true (ofName (c :: rest)).glob.tokens
        [bytes (Path.ofNames (above ++ [c :: rest]))]).contains []) := rfl
  rw [applies, hmatches, hcan, List.contains_iff_mem.2 hrests]
  rfl

/-! ### The last rule that matches -/

/-- Later rules come first; only where they say nothing do earlier rules count. -/
theorem verdict?_append (rules more : List IgnoreRule) (path : List Char) (isDirectory : Bool) :
    verdict? (rules ++ more) path isDirectory =
      (verdict? more path isDirectory).or (verdict? rules path isDirectory) := by
  rw [verdict?, List.reverse_append, List.find?_append, Option.map_or]
  rfl

/-- What is kept is kept by a rule. -/
theorem exists_keeps_of_verdict? {rules : List IgnoreRule} {path : List Char} {isDirectory : Bool}
    (h : verdict? rules path isDirectory = some .kept) : ∃ rule ∈ rules, rule.keeps = true := by
  obtain ⟨rule, hfind, hverdict⟩ := Option.map_eq_some_iff.1 h
  refine ⟨rule, List.mem_reverse.1 (List.mem_of_find?_eq_some hfind), ?_⟩
  by_contra hkeeps
  simp [verdict, hkeeps] at hverdict

end IgnoreRule

/-! ### Standard names -/

namespace Exclusion

theorem isPlain_of_mem_standardNames {name : String} (h : name ∈ standardNames) :
    IgnoreRule.IsPlain name.toList := by
  have hall : ∀ name ∈ standardNames, IgnoreRule.IsPlain name.toList := by decide
  exact hall name h

theorem mem_standardRules_iff {rule : IgnoreRule} :
    rule ∈ standardRules ↔ ∃ name ∈ standardNames, IgnoreRule.ofName name.toList = rule := by
  rw [standardRules, List.mem_filterMap]
  refine exists_congr fun name => and_congr_right fun hname => ?_
  rw [IgnoreRule.parse?_of_plain (isPlain_of_mem_standardNames hname), Option.some.injEq]

/-- The standard rules keep nothing. -/
theorem keeps_of_mem_standardRules {rule : IgnoreRule} (h : rule ∈ standardRules) :
    rule.keeps = false := by
  obtain ⟨name, -, rfl⟩ := mem_standardRules_iff.1 h
  rfl

/-- The standard rules leave out every path that ends in a standard name. -/
theorem verdict?_standardRules {name : List Char} (h : String.ofList name ∈ standardNames)
    (above : List (List Char)) (isDirectory : Bool) :
    IgnoreRule.verdict? standardRules (Path.ofNames (above ++ [name])) isDirectory =
      some .ignored := by
  have hplain : IgnoreRule.IsPlain name := by
    simpa using isPlain_of_mem_standardNames h
  have hrule : IgnoreRule.ofName name ∈ standardRules :=
    mem_standardRules_iff.2 ⟨_, h, by rw [String.toList_ofList]⟩
  have hfound : (standardRules.reverse.find? fun rule =>
      rule.applies (Path.ofNames (above ++ [name])) isDirectory).isSome = true :=
    List.find?_isSome.2 ⟨_, List.mem_reverse.2 hrule, IgnoreRule.applies_ofName hplain above _⟩
  obtain ⟨rule, hrule⟩ := Option.isSome_iff_exists.1 hfound
  have hkeeps := keeps_of_mem_standardRules
    (List.mem_reverse.1 (List.mem_of_find?_eq_some hrule))
  rw [IgnoreRule.verdict?, hrule, Option.map_some, IgnoreRule.verdict, hkeeps]
  rfl

/-- A path of names starts with no `./`. -/
theorem withoutDot_ofNames {names : List (List Char)} (h : ∀ name ∈ names, FileTree.IsName name) :
    withoutDot (Path.ofNames names) = Path.ofNames names := by
  cases hstrip : ['.', '/'].isPrefixOf? (Path.ofNames names) with
  | none => rw [withoutDot, hstrip, Option.getD_none]
  | some rest =>
    have hpath : Path.ofNames names = ['.'] ++ '/' :: rest := by
      rw [← List.isPrefixOf?_eq_some_iff_append_eq.1 hstrip]
      rfl
    have hne : names ≠ [] := by
      rintro rfl
      cases hpath
    -- the first segment would be a lone full stop
    have hsplit := Path.splitOn_ofNames hne h
    rw [hpath, List.splitOn_append_cons_self_of_not_mem (by decide)] at hsplit
    exact absurd rfl (h ['.'] (by simp [← hsplit])).2.2.1

theorem build_eq_ok_iff {config : Config} {ignoreFile : Option (List UInt8)}
    {exclusion : Exclusion} : build config ignoreFile = .ok exclusion ↔
      parseGlobs config.excludedPaths = .ok exclusion.globs ∧
        exclusion.rules = standardRules ++ IgnoreFile.rules (ignoreFile.getD []) := by
  rw [build]
  cases parseGlobs config.excludedPaths with
  | error error => simp [Except.map]
  | ok globs =>
    cases exclusion
    simp [Except.map, and_comm, eq_comm]

/-- Whether a path that ends in a standard name gets into a project is up to the ignore file: it has
to keep the path itself, and no configured pattern may match. -/
theorem excludes_standardName_eq_false_iff {config : Config} {ignoreFile : Option (List UInt8)}
    {exclusion : Exclusion} (hbuild : build config ignoreFile = .ok exclusion)
    {above : List (List Char)} {name : List Char}
    (hnames : ∀ n ∈ above ++ [name], FileTree.IsName n)
    (hname : String.ofList name ∈ standardNames) (isDirectory : Bool) :
    exclusion.excludes (Path.ofNames (above ++ [name])) isDirectory = false ↔
      IgnoreRule.verdict? (IgnoreFile.rules (ignoreFile.getD []))
          (Path.ofNames (above ++ [name])) isDirectory = some .kept ∧
        ∀ glob ∈ exclusion.globs, glob.matchesPath (Path.ofNames (above ++ [name])) = false := by
  have hne : Path.ofNames (above ++ [name]) ≠ [] := by
    rw [Path.ofNames, Ne, intercalate_eq_nil_iff fun n hn => (hnames n hn).1]
    simp
  rw [excludes, withoutDot_ofNames hnames, verdict?, (build_eq_ok_iff.1 hbuild).2,
    IgnoreRule.verdict?_append, verdict?_standardRules hname]
  -- the standard rule always has a say, so the directories above do not count
  cases hverdict : IgnoreRule.verdict? (IgnoreFile.rules (ignoreFile.getD []))
      (Path.ofNames (above ++ [name])) isDirectory with
  | none => simp [hne]
  | some verdict => cases verdict <;> simp [hne]

end Exclusion

namespace Project

theorem exclusion_eq_ok_iff {project : Project} {exclusion : Exclusion} :
    project.exclusion = .ok exclusion ↔
      Exclusion.build project.config (project.ignoreFile.map ByteArray.toList) = .ok exclusion := by
  rw [Project.exclusion]
  cases Exclusion.build project.config (project.ignoreFile.map ByteArray.toList) <;> simp

/-- The rules of a project's ignore file. -/
def ignoreRules (project : Project) : List IgnoreRule :=
  IgnoreFile.rules ((project.ignoreFile.map ByteArray.toList).getD [])

/-- No directory on the way to a source file is excluded, nor the file itself. -/
theorem Admits.excludes_eq_false {project : Project} {exclusion : Exclusion}
    {names : List (List Char)} {source : SourceFile} (h : project.Admits exclusion names source)
    {above below : List (List Char)} (hsplit : above ++ below = names) (habove : above ≠ []) :
    exclusion.excludes (Path.ofNames above) (!below.isEmpty) = false := by
  by_cases hbelow : below = []
  · subst hbelow
    rw [List.append_nil] at hsplit
    subst hsplit
    simpa [← h.path] using h.kept
  · have hflag : (!below.isEmpty) = true := by simpa using hbelow
    rw [hflag]
    exact h.keptAbove above below hsplit habove hbelow

/-- A path of a source file holds a standard name only where the ignore file keeps the path up to
this name. So without a rule that keeps something no standard name gets into a project. -/
theorem standardName_kept (project : Project) (files : List SourceFile)
    (hwf : (FileTree.directory project.entries).WellFormed)
    (hfiles : project.sourceFiles = .ok files) :
    (∀ source ∈ files, ∀ above name below, source.path.splitOn '/' = above ++ name :: below →
      String.ofList name ∈ Exclusion.standardNames →
      IgnoreRule.verdict? project.ignoreRules (Path.ofNames (above ++ [name]))
        (!below.isEmpty) = some .kept) ∧
    ((∀ rule ∈ project.ignoreRules, rule.keeps = false) →
      ∀ source ∈ files, ∀ name ∈ source.path.splitOn '/',
        String.ofList name ∉ Exclusion.standardNames) := by
  obtain ⟨exclusion, hexclusion, rfl⟩ := sourceFiles_eq_ok_iff.1 hfiles
  have hbuild := exclusion_eq_ok_iff.1 hexclusion
  have hkept : ∀ source ∈ FileTree.sourceFilesIn project.config exclusion [] project.entries,
      ∀ above name below, source.path.splitOn '/' = above ++ name :: below →
      String.ofList name ∈ Exclusion.standardNames →
      IgnoreRule.verdict? project.ignoreRules (Path.ofNames (above ++ [name]))
        (!below.isEmpty) = some .kept := by
    intro source hsource above name below hsplit hname
    obtain ⟨names, hadmits⟩ := (mem_sourceFilesIn_iff_admits project exclusion hwf source).1 hsource
    have hnames := (hwf.get? hadmits.found).2
    have hne : names ≠ [] := by
      rintro rfl
      cases hadmits.found
    rw [hadmits.path, Path.splitOn_ofNames hne hnames] at hsplit
    subst hsplit
    have hpasses := hadmits.excludes_eq_false (List.append_cons above name below).symm (by simp)
    refine ((Exclusion.excludes_standardName_eq_false_iff hbuild (fun n hn => ?_) hname _).1
      hpasses).1
    exact hnames n (by rw [List.append_cons]; exact List.mem_append_left below hn)
  refine ⟨hkept, fun hkeeps source hsource name hmem hname => ?_⟩
  obtain ⟨above, below, hsplit⟩ := List.append_of_mem hmem
  obtain ⟨rule, hrule, hkeep⟩ :=
    IgnoreRule.exists_keeps_of_verdict? (hkept source hsource above name below hsplit hname)
  rw [hkeeps rule hrule] at hkeep
  cases hkeep

/-- A project with two directories of standard names, one of which its ignore file keeps. -/
def keepingProject : Project where
  root := "/p".toList
  entries := [
    (".gitignore".toList, .file "!dist\n".toUTF8),
    ("build".toList, .directory [("b.ts".toList, .file "".toUTF8)]),
    ("dist".toList, .directory [("a.ts".toList, .file "".toUTF8)])]
  config := {}
  ignoreFile := some "!dist\n".toUTF8

theorem wellFormed_keepingProject : (FileTree.directory keepingProject.entries).WellFormed := by
  decide +kernel

theorem exists_sourceFiles_keepingProject : ∃ files, keepingProject.sourceFiles = .ok files ∧
    files.map (fun source => String.ofList source.path) = ["dist/a.ts"] := by
  have hpaths : (keepingProject.sourceFiles.map
      fun files => files.map fun source => String.ofList source.path).toOption =
        some ["dist/a.ts"] := by
    decide +kernel
  match hfiles : keepingProject.sourceFiles with
  | .error error =>
    rw [hfiles] at hpaths
    cases hpaths
  | .ok files =>
    rw [hfiles] at hpaths
    exact ⟨files, rfl, Option.some.inj hpaths⟩

theorem standardName_kept_keepingProject :
    (FileTree.directory keepingProject.entries).WellFormed ∧
    ∃ files, keepingProject.sourceFiles = .ok files ∧
      files.map (fun source => String.ofList source.path) = ["dist/a.ts"] ∧
      ∀ source ∈ files, ∀ above name below, source.path.splitOn '/' = above ++ name :: below →
        String.ofList name ∈ Exclusion.standardNames →
        IgnoreRule.verdict? keepingProject.ignoreRules (Path.ofNames (above ++ [name]))
          (!below.isEmpty) = some .kept := by
  obtain ⟨files, hfiles, hpaths⟩ := exists_sourceFiles_keepingProject
  exact ⟨wellFormed_keepingProject, files, hfiles, hpaths,
    (standardName_kept keepingProject files wellFormed_keepingProject hfiles).1⟩

/-- The ignore file can bring a standard name into a project. -/
theorem exists_standardName_keepingProject : ∃ files, keepingProject.sourceFiles = .ok files ∧
    ∃ source ∈ files, ∃ name ∈ source.path.splitOn '/',
      String.ofList name ∈ Exclusion.standardNames := by
  obtain ⟨files, hfiles, hpaths⟩ := exists_sourceFiles_keepingProject
  obtain ⟨source, hsource, hpath⟩ : ∃ source ∈ files, String.ofList source.path = "dist/a.ts" :=
    List.mem_map.1 (by simp [hpaths])
  have hpath : source.path = "dist/a.ts".toList := by
    rw [← hpath, String.toList_ofList]
  exact ⟨files, hfiles, source, hsource, "dist".toList, by rw [hpath]; decide, by decide⟩

end Project

end SourceAtlas
