import SourceAtlas.Project.Basic
import SourceAtlas.Proofs.Path.Names

/-!
# What the walk through a project finds

The walk leaves out a tree as soon as its path is excluded. It finds exactly the files with an
allowed extension of which neither the path nor a directory above it is excluded, each once and in
the order of their paths, compared name by name and byte by byte.
-/

namespace SourceAtlas

open Text

/-- Whether a path stands before another in the order of the walk: the first name in which they
differ has the smaller bytes. -/
def Path.Precedes (path other : List Char) : Prop :=
  List.Lex (fun name next => bytes name < bytes next) (path.splitOn '/') (other.splitOn '/')

/-- Of two paths below one directory, that with the smaller name there comes first. -/
theorem Path.precedes_of_lt {base names others : List (List Char)} {name other : List Char}
    (hnames : ∀ n ∈ base ++ name :: names, FileTree.IsName n)
    (hothers : ∀ n ∈ base ++ other :: others, FileTree.IsName n) (h : name < other) :
    Path.Precedes (Path.ofNames (base ++ name :: names))
      (Path.ofNames (base ++ other :: others)) := by
  rw [Path.Precedes, Path.splitOn_ofNames (by simp) hnames, Path.splitOn_ofNames (by simp) hothers]
  exact List.Lex.append_left (fun name next => bytes name < bytes next) (.rel (bytes_lt_bytes h)) base

/-- No path stands before itself. -/
theorem Path.not_precedes_self (path : List Char) : ¬ Path.Precedes path path :=
  List.lex_irrefl (fun name => List.lt_irrefl (bytes name)) (path.splitOn '/')

namespace FileTree

/-- Whether the walk gets to the end of a chain of names from a chain that it has got to: no
directory on the way is excluded, nor the file at the end. -/
def Passes (exclusion : Exclusion) (base : List (List Char)) : List (List Char) → Prop
  | [] => True
  | name :: names =>
    exclusion.excludes (Path.ofNames (base ++ [name])) (!names.isEmpty) = false ∧
      Passes exclusion (base ++ [name]) names

/-- The walk gets to the end of a chain if no chain that opens it is excluded. -/
theorem passes_iff {exclusion : Exclusion} {base names : List (List Char)} :
    Passes exclusion base names ↔ ∀ above below, above ++ below = names → above ≠ [] →
      exclusion.excludes (Path.ofNames (base ++ above)) (!below.isEmpty) = false := by
  induction names generalizing base with
  | nil =>
    simp only [Passes, true_iff]
    intro above below h hne
    exact absurd (List.append_eq_nil_iff.1 h).1 hne
  | cons name names ih =>
    rw [Passes, ih]
    constructor
    · rintro ⟨hfirst, hrest⟩ above below h hne
      obtain ⟨first, above, rfl⟩ := List.exists_cons_of_ne_nil hne
      rw [List.cons_append] at h
      obtain ⟨rfl, hsplit⟩ := List.cons.inj h
      by_cases habove : above = []
      · subst habove
        rw [List.nil_append] at hsplit
        rwa [hsplit]
      · simpa using hrest above below hsplit habove
    · intro h
      refine ⟨h [name] names rfl (by simp), fun above below habove hne => ?_⟩
      simpa using h (name :: above) below (by simp [habove]) (by simp)

/-- A tree with a file at the end of a chain of names is a directory if the chain has names. -/
theorem isDirectory_of_get? {tree : FileTree} {names : List (List Char)} {content : ByteArray}
    (h : tree.get? names = some (.file content)) : tree.isDirectory = !names.isEmpty := by
  cases names with
  | nil =>
    rw [get?_nil, Option.some.injEq] at h
    subst h
    rfl
  | cons name names =>
    rw [get?_cons] at h
    cases tree with
    | file content => cases h
    | link target => cases h
    | directory entries => rfl

section Walk

variable (config : Config) (exclusion : Exclusion)

mutual

/-- What the walk finds in a tree. -/
theorem mem_sourceFiles (base : List (List Char)) (name : List Char) (source : SourceFile)
    (hbase : ∀ n ∈ base ++ [name], IsName n) : (tree : FileTree) → tree.WellFormed →
    (source ∈ sourceFiles config exclusion name (Path.ofNames (base ++ [name])) tree ↔
      ∃ names, tree.get? names = some (.file source.content) ∧
        source.path = Path.ofNames (base ++ [name] ++ names) ∧
        config.allows (names.getLastD name) = true ∧ Passes exclusion (base ++ [name]) names)
  | .file content, _ => by
    constructor
    · intro h
      simp only [sourceFiles, List.mem_ite_nil_right, List.mem_singleton] at h
      obtain ⟨hallows, rfl⟩ := h
      exact ⟨[], by simp, by simp, hallows, trivial⟩
    · rintro ⟨names, hget, hpath, hallows, -⟩
      cases names with
      | nil =>
        rw [get?_nil] at hget
        cases hget
        rw [List.append_nil] at hpath
        simp only [sourceFiles, List.mem_ite_nil_right, List.mem_singleton]
        exact ⟨hallows, by rw [← hpath]⟩
      | cons n ns => cases hget
  | .link target, _ => by
    constructor
    · intro h
      cases h
    · rintro ⟨names, hget, -⟩
      cases names <;> cases hget
  | .directory entries, hwf => by
    rw [sourceFiles, mem_sourceFilesIn (base ++ [name]) source hbase entries hwf.1 hwf.2]
    constructor
    · rintro ⟨n, tree, names, hmem, hget, hpath, hallows, hpasses⟩
      refine ⟨n :: names, ?_, hpath, by rwa [List.getLastD_cons], hpasses⟩
      rw [get?_cons, child?_of_mem hwf.1 hmem, Option.bind_some, hget]
    · rintro ⟨names, hget, hpath, hallows, hpasses⟩
      cases names with
      | nil => cases hget
      | cons n names =>
        rw [get?_cons, Option.bind_eq_some_iff] at hget
        obtain ⟨tree, hchild, hget⟩ := hget
        rw [List.getLastD_cons] at hallows
        exact ⟨n, tree, names, mem_of_child? hchild, hget, hpath, hallows, hpasses⟩

/-- What the walk finds among the entries of a directory. -/
theorem mem_sourceFilesIn (base : List (List Char)) (source : SourceFile)
    (hbase : ∀ n ∈ base, IsName n) : (entries : List (List Char × FileTree)) →
    (entries.map Prod.fst).Pairwise (· < ·) → WellFormedAll entries →
    (source ∈ sourceFilesIn config exclusion (Path.ofNames base) entries ↔
      ∃ name tree names, (name, tree) ∈ entries ∧ tree.get? names = some (.file source.content) ∧
        source.path = Path.ofNames (base ++ name :: names) ∧
        config.allows (names.getLastD name) = true ∧ Passes exclusion base (name :: names))
  | [], _, _ => by simp [sourceFilesIn]
  | (name, tree) :: rest, hkeys, hwf => by
    obtain ⟨hname, htree, hrest⟩ := hwf
    have hbase' : ∀ n ∈ base ++ [name], IsName n := by
      simpa [or_imp, forall_and] using ⟨hbase, hname⟩
    have hfirst := mem_sourceFiles base name source hbase' tree htree
    have hothers := mem_sourceFilesIn base source hbase rest (List.pairwise_cons.1 hkeys).2 hrest
    rw [sourceFilesIn, Path.below_ofNames hbase, List.mem_append, List.mem_ite_nil_left, hfirst,
      hothers]
    constructor
    · rintro (⟨hkept, names, hget, hpath, hallows, hpasses⟩ | ⟨n, t, names, hmem, hfound⟩)
      · refine ⟨name, tree, names, by simp, hget, by simpa using hpath, hallows, ?_, hpasses⟩
        rw [← isDirectory_of_get? hget]
        simpa using hkept
      · exact ⟨n, t, names, by simp [hmem], hfound⟩
    · rintro ⟨n, t, names, hmem, hget, hpath, hallows, hpasses⟩
      rcases List.mem_cons.1 hmem with heq | hmem
      · cases heq
        refine .inl ⟨?_, names, hget, by simpa using hpath, hallows, hpasses.2⟩
        rw [isDirectory_of_get? hget, hpasses.1]
        simp
      · exact .inr ⟨n, t, names, hmem, hget, hpath, hallows, hpasses⟩

end

mutual

/-- The files that the walk finds in a tree come in the order of their paths. -/
theorem pairwise_sourceFiles (base : List (List Char)) (name : List Char)
    (hbase : ∀ n ∈ base ++ [name], IsName n) : (tree : FileTree) → tree.WellFormed →
    (sourceFiles config exclusion name (Path.ofNames (base ++ [name])) tree).Pairwise
      fun source other => Path.Precedes source.path other.path
  | .file content, _ => by
    rw [sourceFiles]
    split <;> simp
  | .link target, _ => by simp [sourceFiles]
  | .directory entries, hwf => by
    rw [sourceFiles]
    exact pairwise_sourceFilesIn (base ++ [name]) hbase entries hwf.1 hwf.2

theorem pairwise_sourceFilesIn (base : List (List Char)) (hbase : ∀ n ∈ base, IsName n) :
    (entries : List (List Char × FileTree)) → (entries.map Prod.fst).Pairwise (· < ·) →
    WellFormedAll entries →
    (sourceFilesIn config exclusion (Path.ofNames base) entries).Pairwise
      fun source other => Path.Precedes source.path other.path
  | [], _, _ => by simp [sourceFilesIn]
  | (name, tree) :: rest, hkeys, ⟨hname, htree, hrest⟩ => by
    obtain ⟨hless, hkeys⟩ := List.pairwise_cons.1 hkeys
    have hbase' : ∀ n ∈ base ++ [name], IsName n := by
      simpa [or_imp, forall_and] using ⟨hbase, hname⟩
    rw [sourceFilesIn, Path.below_ofNames hbase, List.pairwise_append]
    refine ⟨?_, pairwise_sourceFilesIn base hbase rest hkeys hrest, fun a ha b hb => ?_⟩
    · split
      · exact List.Pairwise.nil
      · exact pairwise_sourceFiles base name hbase' tree htree
    · rw [List.mem_ite_nil_left, mem_sourceFiles config exclusion base name a hbase' tree htree] at ha
      obtain ⟨-, names, hget, hpath, -⟩ := ha
      rw [mem_sourceFilesIn config exclusion base b hbase rest hkeys hrest] at hb
      obtain ⟨other, t, others, hmem, hget', hpath', -⟩ := hb
      have hfirst : ∀ n ∈ base ++ name :: names, IsName n := by
        have hnames := (htree.get? hget).2
        simp only [List.mem_append, List.mem_cons, or_imp, forall_and, forall_eq]
        exact ⟨hbase, hname, hnames⟩
      have hsecond : ∀ n ∈ base ++ other :: others, IsName n := by
        obtain ⟨hother, hwf⟩ := wellFormedAll_iff.1 hrest _ _ hmem
        simp only [List.mem_append, List.mem_cons, or_imp, forall_and, forall_eq]
        exact ⟨hbase, hother, (hwf.get? hget').2⟩
      rw [hpath, hpath', List.append_assoc]
      exact Path.precedes_of_lt hfirst hsecond (hless other (List.mem_map.2 ⟨_, hmem, rfl⟩))

end

end Walk

end FileTree

/-- A name is allowed if it ends with one of the extensions. -/
theorem Config.allows_iff {config : Config} {name : List Char} :
    config.allows name = true ↔ ∃ extension ∈ config.extensions, extension.toList <:+ name := by
  simp [Config.allows, List.isSuffixOf_iff_suffix]

namespace Project

theorem sourceFiles_eq_ok_iff {project : Project} {files : List SourceFile} :
    project.sourceFiles = .ok files ↔ ∃ exclusion, project.exclusion = .ok exclusion ∧
      files = FileTree.sourceFilesIn project.config exclusion [] project.entries := by
  rw [sourceFiles]
  cases project.exclusion with
  | error error => simp [Except.map]
  | ok exclusion => simp [Except.map, eq_comm]

/-- No source file comes twice. -/
theorem nodup_sourceFiles {project : Project} {files : List SourceFile}
    (hwf : (FileTree.directory project.entries).WellFormed) (h : project.sourceFiles = .ok files) :
    (files.map SourceFile.path).Nodup := by
  obtain ⟨exclusion, -, rfl⟩ := sourceFiles_eq_ok_iff.1 h
  have hordered := FileTree.pairwise_sourceFilesIn project.config exclusion [] (by simp)
    project.entries hwf.1 hwf.2
  refine List.pairwise_map.2 (hordered.imp fun {source other} hprecedes heq => ?_)
  rw [heq] at hprecedes
  exact Path.not_precedes_self _ hprecedes

/-- What makes the file at the end of a chain of names a source file of a project: its name has an
allowed extension, and neither its path nor a directory above it is excluded. -/
structure Admits (project : Project) (exclusion : Exclusion) (names : List (List Char))
    (source : SourceFile) : Prop where
  path : source.path = Path.ofNames names
  found : (FileTree.directory project.entries).get? names = some (.file source.content)
  extension : ∃ extension ∈ project.config.extensions, extension.toList <:+ names.getLastD []
  kept : exclusion.excludes source.path false = false
  keptAbove : ∀ above below, above ++ below = names → above ≠ [] → below ≠ [] →
    exclusion.excludes (Path.ofNames above) true = false

theorem mem_sourceFilesIn_iff_admits (project : Project) (exclusion : Exclusion)
    (hwf : (FileTree.directory project.entries).WellFormed) (source : SourceFile) :
    source ∈ FileTree.sourceFilesIn project.config exclusion [] project.entries ↔
      ∃ names, project.Admits exclusion names source := by
  refine (FileTree.mem_sourceFilesIn project.config exclusion [] source (by simp) _ hwf.1
    hwf.2).trans ⟨?_, ?_⟩
  · rintro ⟨name, tree, names, hmem, hget, hpath, hallows, hpasses⟩
    rw [FileTree.passes_iff] at hpasses
    refine ⟨name :: names, hpath, ?_, ?_, ?_, ?_⟩
    · rw [FileTree.get?_cons, FileTree.child?_of_mem hwf.1 hmem, Option.bind_some, hget]
    · rwa [List.getLastD_cons, ← Config.allows_iff]
    · simpa [hpath] using hpasses (name :: names) [] (by simp) (by simp)
    · intro above below hsplit habove hbelow
      have hflag : (!below.isEmpty) = true := by simpa using hbelow
      simpa only [hflag, List.nil_append] using hpasses above below hsplit habove
  · rintro ⟨names, hpath, hget, hextension, hkept, habove⟩
    cases names with
    | nil => cases hget
    | cons name names =>
      rw [FileTree.get?_cons, Option.bind_eq_some_iff] at hget
      obtain ⟨tree, hchild, hget⟩ := hget
      refine ⟨name, tree, names, FileTree.mem_of_child? hchild, hget, hpath, ?_, ?_⟩
      · rwa [Config.allows_iff, ← List.getLastD_cons]
      · rw [FileTree.passes_iff]
        intro above below hsplit hne
        by_cases hbelow : below = []
        · subst hbelow
          rw [List.append_nil] at hsplit
          rw [hsplit, List.nil_append, ← hpath]
          exact hkept
        · have hflag : (!below.isEmpty) = true := by simpa using hbelow
          simpa only [hflag, List.nil_append] using habove above below hsplit hne hbelow

/-- No link lies on the way to a source file. -/
theorem Admits.not_link_above {project : Project} {exclusion : Exclusion}
    {names : List (List Char)} {source : SourceFile} (h : project.Admits exclusion names source)
    {above : List (List Char)} {target : List Char}
    (hlink : (FileTree.directory project.entries).get? above = some (.link target)) :
    ¬ above <+: names := by
  rintro ⟨below, rfl⟩
  have hfound := h.found
  rw [FileTree.get?_append, hlink, Option.bind_some] at hfound
  cases below <;> cases hfound

/-- The source files of a project are exactly its admissible files: files with an allowed extension
that are not excluded and lie in no excluded directory. None is a link or lies behind one, none
comes twice, and they are in the order of their paths, name by name. -/
theorem sourceFiles_admissible (project : Project) (exclusion : Exclusion)
    (hwf : (FileTree.directory project.entries).WellFormed)
    (hexclusion : project.exclusion = .ok exclusion) :
    ∃ files, project.sourceFiles = .ok files ∧
      (∀ source, source ∈ files ↔ ∃ names, project.Admits exclusion names source) ∧
      (∀ above target, (FileTree.directory project.entries).get? above = some (.link target) →
        ∀ source ∈ files, ¬ above <+: source.path.splitOn '/') ∧
      (files.map SourceFile.path).Nodup ∧
      files.Pairwise (fun source other => Path.Precedes source.path other.path) := by
  have hmem := mem_sourceFilesIn_iff_admits project exclusion hwf
  have hordered := FileTree.pairwise_sourceFilesIn project.config exclusion [] (by simp)
    project.entries hwf.1 hwf.2
  have hfiles := sourceFiles_eq_ok_iff.2 ⟨exclusion, hexclusion, rfl⟩
  refine ⟨_, hfiles, hmem, ?_, nodup_sourceFiles hwf hfiles, hordered⟩
  intro above target hlink source hsource
  obtain ⟨names, hadmits⟩ := (hmem source).1 hsource
  have hne : names ≠ [] := by
    rintro rfl
    cases hadmits.found
  rw [hadmits.path, Path.splitOn_ofNames hne (hwf.get? hadmits.found).2]
  exact hadmits.not_link_above hlink

/-- A project with a link, with a directory of which all is excluded, and with a directory and a
file that have one name up to a full stop. -/
def mixedProject : Project where
  root := "/p".toList
  entries := [
    ("a.ts".toList, .link "lib".toList),
    ("build".toList, .directory [("b.ts".toList, .file "".toUTF8)]),
    ("lib".toList, .directory [
      ("deep".toList, .directory [("c.ts".toList, .file "".toUTF8)]),
      ("é.ts".toList, .file "".toUTF8)]),
    ("lib.ts".toList, .file "".toUTF8),
    ("notes.md".toList, .file "".toUTF8)]
  config := { excludedPaths := ["lib/deep/**"] }
  ignoreFile := none

theorem sourceFiles_mixedProject : (FileTree.directory mixedProject.entries).WellFormed ∧
    ∃ exclusion files, mixedProject.exclusion = .ok exclusion ∧
      mixedProject.sourceFiles = .ok files ∧
      files.map (fun source => String.ofList source.path) = ["lib/é.ts", "lib.ts"] ∧
      ∀ source, source ∈ files ↔ ∃ names, mixedProject.Admits exclusion names source := by
  have hwf : (FileTree.directory mixedProject.entries).WellFormed := by decide +kernel
  have hpaths : (mixedProject.sourceFiles.map
      fun files => files.map fun source => String.ofList source.path).toOption =
        some ["lib/é.ts", "lib.ts"] := by
    decide +kernel
  match hexclusion : mixedProject.exclusion with
  | .error error =>
    rw [sourceFiles, hexclusion] at hpaths
    cases hpaths
  | .ok exclusion =>
    obtain ⟨files, hfiles, hmem, -⟩ := sourceFiles_admissible mixedProject exclusion hwf hexclusion
    rw [hfiles] at hpaths
    exact ⟨hwf, exclusion, files, rfl, hfiles, Option.some.inj hpaths, hmem⟩

end Project

end SourceAtlas
