import SourceAtlas.Proofs.Disk.Without
import SourceAtlas.Proofs.Document.Pruning
import SourceAtlas.Proofs.Project.Reopen
import SourceAtlas.Proofs.Project.SourceFiles

/-!
# What the document of a project records

The document of a project has one entry for each source file that can be read and whose language is
known, in the directory where the file lies, and nothing else. A file that has no entry leaves no
trace: without it the project has the same document.
-/

namespace SourceAtlas

open Text

namespace Path

/-! ### Paths below a root -/

theorem segments_absolutePath {place : List (List Char)}
    (h : ∀ name ∈ place, FileTree.IsName name) : segments (Disk.absolutePath place) = place := by
  have hslash : segments (Disk.absolutePath place) = segments (ofNames place) :=
    segments_cons_slash (ofNames place)
  rw [hslash, segments_ofNames h]

/-- The last segment of a path is its file name unless it leads to a parent. -/
theorem fileName?_of_segments {path name : List Char} {above : List (List Char)}
    (h : segments path = above ++ [name]) (hname : name ≠ ['.', '.']) :
    fileName? path = some name := by
  rw [fileName?, components, h, List.map_append, ← List.append_assoc, List.map_singleton,
    List.getLast?_concat, Option.bind_some, Component.ofSegment, if_neg hname]
  rfl

/-- The absolute path of a directory other than the root does not end in a slash. -/
theorem getLast?_absolutePath {place : List (List Char)} (hplace : place ≠ [])
    (h : ∀ name ∈ place, FileTree.IsName name) :
    (Disk.absolutePath place).getLast? ≠ some '/' := by
  obtain ⟨above, name, rfl⟩ := (List.eq_nil_or_concat' place).resolve_left hplace
  obtain ⟨hne, hslash, -⟩ := h name (by simp)
  obtain ⟨front, hfront⟩ : ∃ front, Disk.absolutePath (above ++ [name]) = front ++ name := by
    by_cases habove : above = []
    · exact ⟨['/'], by simp [habove, Disk.absolutePath]⟩
    · exact ⟨'/' :: (['/'].intercalate above ++ ['/']), by
        simp [Disk.absolutePath, intercalate_concat habove]⟩
  rw [hfront, List.getLast?_append_of_ne_nil _ hne]
  intro hlast
  exact hslash (List.mem_of_getLast? hlast)

/-- Below the absolute path of a directory lies the absolute path of what it holds. -/
theorem joined_absolutePath {place names : List (List Char)}
    (hplace : ∀ name ∈ place, FileTree.IsName name) (hnames : ∀ name ∈ names, FileTree.IsName name)
    (hne : names ≠ []) :
    joined (Disk.absolutePath place) (ofNames names) = Disk.absolutePath (place ++ names) := by
  rw [joined, if_neg (by simp [isAbsolute_ofNames hnames, Disk.absolutePath])]
  by_cases hempty : place = []
  · subst hempty
    rfl
  · rw [if_neg (getLast?_absolutePath hempty hplace), Disk.absolutePath, Disk.absolutePath,
      intercalate_append hempty hne]
    rfl

/-- A file has the same language under its absolute path and under its path below the root. -/
theorem ofPath?_joined {place names : List (List Char)}
    (hplace : ∀ name ∈ place, FileTree.IsName name) (hnames : ∀ name ∈ names, FileTree.IsName name)
    (hne : names ≠ []) :
    Language.ofPath? (joined (Disk.absolutePath place) (ofNames names)) =
      Language.ofPath? (ofNames names) := by
  obtain ⟨above, name, rfl⟩ := (List.eq_nil_or_concat' names).resolve_left hne
  have hall : ∀ n ∈ place ++ (above ++ [name]), FileTree.IsName n := by
    simpa [or_imp, forall_and] using ⟨hplace, by simpa [or_imp, forall_and] using hnames⟩
  have hname : name ≠ ['.', '.'] := (hnames name (by simp)).2.2.2
  have hfile : fileName? (joined (Disk.absolutePath place) (ofNames (above ++ [name]))) =
      fileName? (ofNames (above ++ [name])) := by
    have hsegments : segments (Disk.absolutePath (place ++ (above ++ [name]))) =
        (place ++ above) ++ [name] := by
      rw [segments_absolutePath hall, List.append_assoc]
    rw [joined_absolutePath hplace hnames hne, fileName?_of_segments (segments_ofNames hnames) hname,
      fileName?_of_segments hsegments hname]
  simp only [Language.ofPath?, extensionOf, extension?, hfile]

end Path

/-! ### The walk without a file -/

namespace FileTree

theorem sourceFilesIn_eq_flatMap (config : Config) (exclusion : Exclusion) (path : List Char)
    (entries : List (List Char × FileTree)) :
    sourceFilesIn config exclusion path entries =
      entries.flatMap fun entry => sourceFilesOf config exclusion path entry.1 entry.2 := by
  induction entries with
  | nil => rw [sourceFilesIn, List.flatMap_nil]
  | cons entry entries ih => rw [sourceFilesIn_cons, List.flatMap_cons, ih]

section Entry

variable {α : Type} (config : Config) (exclusion : Exclusion) (path name : List Char)
  {gather : SourceFile → Option α}

/-- From a file that adds nothing, nothing is gathered. -/
theorem filterMap_sourceFilesOf_file {content : ByteArray}
    (h : gather ⟨Path.below path name, content⟩ = none) :
    (sourceFilesOf config exclusion path name (.file content)).filterMap gather = [] := by
  rw [sourceFilesOf, sourceFiles]
  split
  · rfl
  · split
    · simp [h]
    · rfl

/-- What is gathered from a directory depends on what is gathered from its entries. -/
theorem filterMap_sourceFilesOf_directory {entries others : List (List Char × FileTree)}
    (h : (sourceFilesIn config exclusion (Path.below path name) entries).filterMap gather =
      (sourceFilesIn config exclusion (Path.below path name) others).filterMap gather) :
    (sourceFilesOf config exclusion path name (.directory entries)).filterMap gather =
      (sourceFilesOf config exclusion path name (.directory others)).filterMap gather := by
  have hdirectory (children : List (List Char × FileTree)) :
      (directory children).isDirectory = true := rfl
  rw [sourceFilesOf, sourceFilesOf, hdirectory, hdirectory, sourceFiles, sourceFiles]
  split
  · rfl
  · exact h

end Entry

/-- What is gathered from the files of a walk does not change with a file that adds nothing to it. -/
theorem filterMap_sourceFilesIn_without {α : Type} (config : Config) (exclusion : Exclusion)
    (gather : SourceFile → Option α) {content : ByteArray} {names : List (List Char)}
    {entries : List (List Char × FileTree)} {base : List (List Char)}
    (hbase : ∀ name ∈ base, IsName name) (hwf : (directory entries).WellFormed)
    (hget : (directory entries).get? names = some (.file content))
    (hnothing : gather ⟨Path.ofNames (base ++ names), content⟩ = none) :
    ∃ entries', (directory entries).without names = directory entries' ∧
      (sourceFilesIn config exclusion (Path.ofNames base) entries').filterMap gather =
        (sourceFilesIn config exclusion (Path.ofNames base) entries).filterMap gather := by
  induction names generalizing entries base with
  | nil => cases hget
  | cons name names ih =>
    rw [get?_cons, Option.bind_eq_some_iff] at hget
    obtain ⟨child, hchild, hget⟩ := hget
    have hunique : ∀ entry ∈ entries, entry.1 = name → entry.2 = child := by
      rintro ⟨n, tree⟩ hmem rfl
      have hfound := child?_of_mem hwf.1 hmem
      rw [hchild, Option.some.injEq] at hfound
      exact hfound.symm
    have hpath := Path.below_ofNames hbase name
    simp only [sourceFilesIn_eq_flatMap, List.filterMap_flatMap]
    by_cases hnames : names = []
    · subst hnames
      rw [get?_nil, Option.some.injEq] at hget
      subst hget
      refine ⟨_, without_singleton name entries, ?_⟩
      -- The entry that is left out is the file, of which nothing is gathered.
      refine flatMap_filter_of_eq_nil fun entry hmem hentry => ?_
      replace hentry : entry.1 = name := by simpa using hentry
      rw [hunique entry hmem hentry, hentry]
      exact filterMap_sourceFilesOf_file config exclusion _ name (by rwa [hpath])
    · refine ⟨_, without_cons hnames name entries, ?_⟩
      obtain ⟨first, rest, rfl⟩ := List.exists_cons_of_ne_nil hnames
      obtain ⟨children, hchildren⟩ := @get?_above child _ [] rest first hget
      rw [get?_nil, Option.some.injEq] at hchildren
      subst hchildren
      obtain ⟨hname, hchildwf⟩ := wellFormedAll_iff.1 hwf.2 _ _ (mem_of_child? hchild)
      have hbase' : ∀ n ∈ base ++ [name], IsName n := by
        simpa [or_imp, forall_and] using ⟨hbase, hname⟩
      obtain ⟨children', hwithout, hsame⟩ := ih hbase' hchildwf hget
        (by rwa [List.append_assoc, List.singleton_append])
      rw [List.flatMap_map]
      refine List.flatMap_congr fun entry hmem => ?_
      by_cases hentry : entry.1 = name
      · rw [if_pos hentry, hunique entry hmem hentry, hentry, hwithout]
        exact filterMap_sourceFilesOf_directory config exclusion _ name (by rwa [hpath])
      · rw [if_neg hentry]

end FileTree

/-! ### Entries of files -/

/-- The chain of keys of the directory that a file lies in. -/
def SourceFile.chain (source : SourceFile) : List String :=
  (source.path.splitOn '/').dropLast.map String.ofList

/-- Insertion follows the chain of keys. -/
theorem wayTo_ofNames {names : List (List Char)} (hne : names ≠ [])
    (h : ∀ name ∈ names, FileTree.IsName name) (content : ByteArray) :
    Document.wayTo (Path.ofNames names) =
      SourceFile.chain ⟨Path.ofNames names, content⟩ := by
  rw [Document.wayTo_of_isBelowRoot ⟨names, hne, h, rfl⟩, SourceFile.chain]

namespace FileEntry

/-- The entry of a file tells where the file lies. -/
theorem described_of_ofSourceFile {config : Config} {source : SourceFile} {entry : FileEntry}
    (h : (ofSourceFile config source).toOption = some entry) :
    entry.path = String.ofList source.path ∧
      entry.name = String.ofList (Path.lastSegment source.path) := by
  rw [ofSourceFile] at h
  split at h
  next => cases h
  next text _ =>
    rw [ofText] at h
    split at h
    next => cases h
    next =>
      cases h
      exact ⟨rfl, rfl⟩

/-- A file has no entry if its content is no text or its language is not known. -/
theorem toOption_ofSourceFile_eq_none_iff {config : Config} {source : SourceFile} :
    (ofSourceFile config source).toOption = none ↔
      String.fromUTF8? source.content = none ∨ Language.ofPath? source.path = none := by
  rw [ofSourceFile]
  cases String.fromUTF8? source.content with
  | none => simp [Except.toOption]
  | some text => cases h : Language.ofPath? source.path <;> simp [ofText, h, Except.toOption]

/-- The entry of a file on a disk is that of the file's content. -/
theorem toOption_ofFile {disk : Disk} {config : Config} {top names : List (List Char)}
    {content : ByteArray} (hwf : disk.root.WellFormed) (hne : names ≠ [])
    (hget : disk.root.get? (top ++ names) = some (.file content)) :
    (ofFile config disk (Path.joined (Disk.absolutePath top) (Path.ofNames names))
        (Path.ofNames names)).toOption =
      (ofSourceFile config ⟨Path.ofNames names, content⟩).toOption := by
  have hall := (hwf.get? hget).2
  have htop : ∀ name ∈ top, FileTree.IsName name := fun n hn => hall n (List.mem_append_left _ hn)
  have hnames : ∀ name ∈ names, FileTree.IsName name := fun n hn => hall n (List.mem_append_right _ hn)
  have hroot : disk.isDirectoryAt [] = true := by
    obtain ⟨first, rest, hplace⟩ := List.exists_cons_of_ne_nil
      (show top ++ names ≠ [] by simp [hne])
    rw [hplace] at hget
    exact Disk.isDirectoryAt_iff.2 (@FileTree.get?_above _ _ [] rest first hget)
  have hlocate := Disk.locate_absolutePath hroot hall ⟨_, hget, by rintro target ⟨⟩⟩
  have hread := Disk.read_of_locate hlocate hget
  have hlanguage := Path.ofPath?_joined htop hnames hne
  rw [← Path.joined_absolutePath htop hnames hne] at hread
  simp only [ofFile, Disk.readText, hread, ofSourceFile]
  cases String.fromUTF8? content with
  | none => rfl
  | some text =>
    simp only [ofText, hlanguage]
    cases Language.ofPath? (Path.ofNames names) <;> rfl

end FileEntry

namespace Project

/-- The entries of the files that have one, each with the path of its file. -/
def recorded (config : Config) (files : List SourceFile) : List (List Char × FileEntry) :=
  files.filterMap fun source =>
    (FileEntry.ofSourceFile config source).toOption.map fun entry => (source.path, entry)

theorem foldl_addSourceFile (config : Config) (files : List SourceFile) (document : Document) :
    files.foldl (addSourceFile config) document = document.insertAll (recorded config files) := by
  induction files generalizing document with
  | nil => rfl
  | cons source files ih =>
    rw [List.foldl_cons, ih, addSourceFile, recorded, recorded]
    cases h : FileEntry.ofSourceFile config source with
    | error error => rw [List.filterMap_cons_none (by rw [h]; rfl)]
    | ok entry =>
      rw [List.filterMap_cons_some (by rw [h]; rfl)]
      rfl

/-- The document of a project is made by inserting the entries of its files. -/
theorem document_of_sourceFiles {project : Project} {files : List SourceFile}
    (h : project.sourceFiles = .ok files) :
    project.document =
      .ok ((Document.new project.root).insertAll (recorded project.config files)) := by
  rw [document, h, Except.map, foldl_addSourceFile, Document.prune_insertAll]

/-- What a document records of the files of a project, given the entry of each file that has one. -/
structure Catalogues (record? : SourceFile → Option FileEntry) (files : List SourceFile)
    (document : Document) : Prop where
  /-- There is one entry for each file that has one, and there are no others. -/
  entries : document.files.Perm (files.filterMap record?)
  /-- No two entries are of one path. -/
  once : (document.files.map FileEntry.path).Nodup
  /-- A file has no entry if its content is no text or its language is not known. -/
  missing : ∀ source ∈ files, record? source = none ↔
    String.fromUTF8? source.content = none ∨ Language.ofPath? source.path = none
  /-- Every entry tells the path and the name of its file. -/
  described : ∀ source ∈ files, ∀ entry, record? source = some entry →
    entry.path = String.ofList source.path ∧
      entry.name = String.ofList (Path.lastSegment source.path)
  /-- The directory of a file that has an entry is there. -/
  reached : ∀ source ∈ files, (record? source).isSome = true →
    (document.root.at? source.chain).isSome = true
  /-- A directory has the entries of the files that lie in it. -/
  placed : ∀ chain directory, document.root.at? chain = some directory →
    directory.files = (files.filter fun source => source.chain = chain).filterMap record?
  /-- No directory below the root is empty. -/
  filled : document.root.Filled

section Recorded

variable {config : Config} {files : List SourceFile} {record? : SourceFile → Option FileEntry}
  (hentry : ∀ source ∈ files, record? source = (FileEntry.ofSourceFile config source).toOption)

include hentry

theorem map_snd_recorded : (recorded config files).map Prod.snd = files.filterMap record? := by
  rw [recorded, List.map_filterMap]
  refine List.filterMap_congr fun source hsource => ?_
  rw [hentry source hsource, Option.map_map]
  exact Option.map_id'

theorem placed_recorded
    (hchain : ∀ source ∈ files, Document.wayTo source.path = source.chain)
    (chain : List String) :
    Document.placed (recorded config files) chain =
      (files.filter fun source => source.chain = chain).filterMap record? := by
  rw [Document.placed, recorded, List.filter_filterMap, List.map_filterMap, List.filterMap_filter]
  refine List.filterMap_congr fun source hsource => ?_
  rw [hentry source hsource, ← hchain source hsource]
  cases FileEntry.ofSourceFile config source with
  | error error => simp [Except.toOption]
  | ok entry =>
    by_cases h : Document.wayTo source.path = chain
    · simp [Except.toOption, h]
    · simp [Except.toOption, h]

/-- Inserting the entries of files records the files. -/
theorem catalogues_insertAll (root : List Char)
    (hchain : ∀ source ∈ files, Document.wayTo source.path = source.chain)
    (hpaths : (files.map SourceFile.path).Nodup) :
    Catalogues record? files ((Document.new root).insertAll (recorded config files)) := by
  have hperm := Document.perm_files_insertAll_new root (recorded config files)
  rw [map_snd_recorded hentry] at hperm
  have hdescribed : ∀ source ∈ files, ∀ entry, record? source = some entry →
      entry.path = String.ofList source.path ∧
        entry.name = String.ofList (Path.lastSegment source.path) := by
    intro source hsource entry hsome
    rw [hentry source hsource] at hsome
    exact FileEntry.described_of_ofSourceFile hsome
  refine ⟨hperm, ?_, fun source hsource => ?_, hdescribed, ?_, ?_, Document.filled_insertAll root _⟩
  · -- The paths of the entries are those of files, which are distinct.
    refine (hperm.map FileEntry.path).nodup_iff.2 (List.pairwise_map.2 (List.pairwise_filterMap.2 ?_))
    refine (List.pairwise_map.1 hpaths).imp_of_mem fun {source other} hsource hother hne => ?_
    intro entry hsome entry' hsome' heq
    rw [(hdescribed source hsource entry hsome).1, (hdescribed other hother entry' hsome').1] at heq
    exact hne (String.ofList_inj.1 heq)
  · rw [hentry source hsource]
    exact FileEntry.toOption_ofSourceFile_eq_none_iff
  · intro source hsource hsome
    rw [Document.isSome_at?_insertAll_new, ← hchain source hsource]
    obtain ⟨entry, hfound⟩ := Option.isSome_iff_exists.1 hsome
    rw [hentry source hsource] at hfound
    refine .inr ⟨(source.path, entry), ?_, List.prefix_refl _⟩
    exact List.mem_filterMap.2 ⟨source, hsource, by rw [hfound]; rfl⟩
  · intro chain directory hfound
    rw [Document.files_of_at?_insertAll hfound, placed_recorded hentry hchain]

end Recorded

/-! ### Projects on a disk -/

section Disk

variable {disk : Disk} {path : List Char} {config : Config} {project : Project}
  {top : List (List Char)} {files : List SourceFile}

/-- Where the source files of a project stand on the disk. -/
theorem exists_names_of_mem_sourceFiles (hwf : disk.root.WellFormed)
    (hlocate : disk.locate path = .ok top) (hopen : open? disk path config = .ok project)
    (hfiles : project.sourceFiles = .ok files) {source : SourceFile} (hsource : source ∈ files) :
    ∃ names, names ≠ [] ∧ (∀ name ∈ names, FileTree.IsName name) ∧
      source.path = Path.ofNames names ∧
      (FileTree.directory project.entries).get? names = some (.file source.content) ∧
      disk.root.get? (top ++ names) = some (.file source.content) := by
  obtain ⟨top', entries, hlocate', hget, rfl⟩ := open?_eq_ok_iff.1 hopen
  rw [hlocate, Except.ok.injEq] at hlocate'
  subst hlocate'
  obtain ⟨exclusion, hexclusion, rfl⟩ := sourceFiles_eq_ok_iff.1 hfiles
  have hentries := (hwf.get? hget).1
  obtain ⟨names, hadmits⟩ := (mem_sourceFilesIn_iff_admits _ exclusion hentries source).1 hsource
  refine ⟨names, ?_, (hentries.get? hadmits.found).2, hadmits.path, hadmits.found, ?_⟩
  · rintro rfl
    cases hadmits.found
  · rw [FileTree.get?_append, hget, Option.bind_some]
    exact hadmits.found

/-- Without a file that has no entry and holds no ignore rules, a project has the same document. -/
theorem exists_open?_without (hwf : disk.root.WellFormed) (hlocate : disk.locate path = .ok top)
    (hopen : open? disk path config = .ok project) (hfiles : project.sourceFiles = .ok files)
    {names : List (List Char)} {content : ByteArray} (hne : names ≠ [])
    (hget : (FileTree.directory project.entries).get? names = some (.file content))
    (hfails : (FileEntry.ofSourceFile config ⟨Path.ofNames names, content⟩).toOption = none)
    (hignore : config.respectIgnoreFile = true →
      disk.locate (Path.joined project.root config.ignoreFile.toList) ≠ .ok (top ++ names)) :
    ∃ rest, open? (disk.without (top ++ names)) path config = .ok rest ∧
      rest.document = project.document := by
  obtain ⟨top', entries, hlocate', hentries, rfl⟩ := open?_eq_ok_iff.1 hopen
  rw [hlocate, Except.ok.injEq] at hlocate'
  subst hlocate'
  have hplace : top ++ names ≠ [] := by simp [hne]
  have hfile : disk.root.get? (top ++ names) = some (.file content) := by
    rw [FileTree.get?_append, hentries, Option.bind_some]
    exact hget
  obtain ⟨exclusion, hexclusion, rfl⟩ := sourceFiles_eq_ok_iff.1 hfiles
  obtain ⟨entries', hwithout, hsame⟩ := FileTree.filterMap_sourceFilesIn_without config exclusion
    (fun source => (FileEntry.ofSourceFile config source).toOption.map fun entry =>
      (source.path, entry)) (List.forall_mem_nil _) (hwf.get? hentries).1 hget
    (by rw [List.nil_append, hfails]; rfl)
  have hentries' : (disk.without (top ++ names)).root.get? top = some (.directory entries') := by
    show (disk.root.without (top ++ names)).get? top = _
    rw [FileTree.get?_without_above disk.root top hne, hentries, Option.map_some, hwithout]
  have hrules : ignoreFile? (disk.without (top ++ names)) (Disk.absolutePath top) config =
      ignoreFile? disk (Disk.absolutePath top) config := by
    rw [ignoreFile?, ignoreFile?]
    split
    next hrespect => exact Disk.read_without hfile hplace (hignore hrespect)
    next => rfl
  refine ⟨_, open?_eq_ok_iff.2 ⟨top, entries', Disk.locate_without hfile hlocate (by simpa using hne),
    hentries', rfl⟩, ?_⟩
  have hfiles' : (⟨Disk.absolutePath top, entries', config,
      ignoreFile? disk (Disk.absolutePath top) config⟩ : Project).sourceFiles =
        .ok (FileTree.sourceFilesIn config exclusion [] entries') :=
    sourceFiles_eq_ok_iff.2 ⟨exclusion, hexclusion, rfl⟩
  rw [hrules, document_of_sourceFiles hfiles, document_of_sourceFiles hfiles']
  exact congrArg (fun inserts => Except.ok ((Document.new (Disk.absolutePath top)).insertAll inserts))
    hsame

/-- The document of a project on a disk records its source files: one entry for each that can be
read and whose language is known, and none for any other. Where a file has no entry and is not the
ignore file, the document of the project is the same without the file. -/
theorem document_catalogues (hwf : disk.root.WellFormed) (hlocate : disk.locate path = .ok top)
    (hopen : open? disk path config = .ok project) (hfiles : project.sourceFiles = .ok files) :
    ∃ document, project.document = .ok document ∧
      Catalogues (fun source => (FileEntry.ofFile config disk
        (Path.joined project.root source.path) source.path).toOption) files document ∧
      ∀ source ∈ files, ∀ error,
        FileEntry.ofFile config disk (Path.joined project.root source.path) source.path =
          .error error →
        (config.respectIgnoreFile = true →
          disk.locate (Path.joined project.root config.ignoreFile.toList) ≠
            .ok (top ++ source.path.splitOn '/')) →
        ∃ rest, open? (disk.without (top ++ source.path.splitOn '/')) path config = .ok rest ∧
          rest.document = .ok document := by
  have hplace : ∀ source ∈ files, _ := fun source hsource =>
    exists_names_of_mem_sourceFiles hwf hlocate hopen hfiles hsource
  obtain ⟨top', entries, hlocate', hget, hproject⟩ := open?_eq_ok_iff.1 hopen
  rw [hlocate, Except.ok.injEq] at hlocate'
  subst hlocate'
  have hroot : project.root = Disk.absolutePath top := by rw [hproject]
  have hconfig : project.config = config := by rw [hproject]
  have hentry : ∀ source ∈ files, (FileEntry.ofFile config disk
      (Path.joined project.root source.path) source.path).toOption =
        (FileEntry.ofSourceFile config source).toOption := by
    intro source hsource
    obtain ⟨names, hne, -, hpath, -, hfile⟩ := hplace source hsource
    obtain ⟨path, content⟩ := source
    obtain rfl : path = Path.ofNames names := hpath
    rw [hroot]
    exact FileEntry.toOption_ofFile hwf hne hfile
  have hdocument := document_of_sourceFiles hfiles
  rw [hconfig] at hdocument
  refine ⟨_, hdocument, catalogues_insertAll hentry project.root ?_ ?_, ?_⟩
  · intro source hsource
    obtain ⟨names, hne, hnames, hpath, -⟩ := hplace source hsource
    rw [hpath, wayTo_ofNames hne hnames source.content, SourceFile.chain, SourceFile.chain,
      hpath]
  · refine nodup_sourceFiles ?_ hfiles
    rw [hproject]
    exact (hwf.get? hget).1
  · intro source hsource error herror hignore
    obtain ⟨names, hne, hnames, hpath, hfound, -⟩ := hplace source hsource
    rw [hpath, Path.splitOn_ofNames hne hnames] at hignore ⊢
    have hfails := hentry source hsource
    rw [herror] at hfails
    rw [← hdocument]
    refine exists_open?_without hwf hlocate hopen hfiles hne hfound ?_ hignore
    rw [← hpath]
    exact hfails.symm

end Disk

/-- What a project holds in which one file is no text and another one has no known language. -/
def flawedEntries : List (List Char × FileTree) := [
  (".gitignore".toList, .file "*.gen.ts\n".toUTF8),
  ("bad.ts".toList, .file ⟨#[0xff]⟩),
  ("lib".toList, .directory [
    ("c.ts".toList, .file "import './d.md';".toUTF8),
    ("d.md".toList, .file "# D".toUTF8)]),
  ("x.gen.ts".toList, .file "".toUTF8)]

/-- A disk with the project. -/
def flawedDisk : Disk where
  root := .directory [("p".toList, .directory flawedEntries)]

/-- Settings that take files without a known language for source files. -/
def broadConfig : Config := { extensions := [".ts", ".md"] }

/-- The project on the disk. -/
def flawedProject : Project where
  root := "/p".toList
  entries := flawedEntries
  config := broadConfig
  ignoreFile := some "*.gen.ts\n".toUTF8

theorem wellFormed_flawedDisk : flawedDisk.root.WellFormed := by decide +kernel

theorem locate_flawedDisk : flawedDisk.locate "/p".toList = .ok ["p".toList] := by
  have hget : flawedDisk.root.get? ["p".toList] = some (.directory flawedEntries) := rfl
  exact Disk.locate_absolutePath rfl (wellFormed_flawedDisk.get? hget).2
    ⟨_, hget, by rintro target ⟨⟩⟩

theorem locate_rules_flawedDisk : flawedDisk.locate "/p/.gitignore".toList =
    .ok ["p".toList, ".gitignore".toList] := by
  have hget : flawedDisk.root.get? ["p".toList, ".gitignore".toList] =
    some (.file "*.gen.ts\n".toUTF8) := rfl
  exact Disk.locate_absolutePath rfl (wellFormed_flawedDisk.get? hget).2
    ⟨_, hget, by rintro target ⟨⟩⟩

theorem open?_flawedDisk : open? flawedDisk "/p".toList broadConfig = .ok flawedProject := by
  have hrules : ignoreFile? flawedDisk "/p".toList broadConfig = some "*.gen.ts\n".toUTF8 :=
    congrArg Except.toOption (Disk.read_of_locate locate_rules_flawedDisk rfl)
  refine open?_eq_ok_iff.2 ⟨_, flawedEntries, locate_flawedDisk, rfl, ?_⟩
  rw [flawedProject, ← hrules]
  rfl

theorem document_catalogues_flawedDisk : flawedDisk.root.WellFormed ∧
    open? flawedDisk "/p".toList broadConfig = .ok flawedProject ∧
    ∃ files document, flawedProject.sourceFiles = .ok files ∧
      files.map SourceFile.path = ["bad.ts".toList, "lib/c.ts".toList, "lib/d.md".toList] ∧
      flawedProject.document = .ok document ∧
      document.files.map FileEntry.path = ["lib/c.ts"] ∧
      ∃ rest, open? (flawedDisk.without ["p".toList, "bad.ts".toList]) "/p".toList broadConfig =
        .ok rest ∧ rest.document = .ok document := by
  have hlist : (flawedProject.sourceFiles.map
      fun files => files.map fun source => (source.path, source.content)).toOption =
        some [("bad.ts".toList, ⟨#[0xff]⟩), ("lib/c.ts".toList, "import './d.md';".toUTF8),
          ("lib/d.md".toList, "# D".toUTF8)] := by
    decide +kernel
  have hentries : (flawedProject.document.map
      fun document => document.files.map FileEntry.path).toOption = some ["lib/c.ts"] := by
    decide +kernel
  cases hfiles : flawedProject.sourceFiles with
  | error error =>
    rw [hfiles] at hlist
    cases hlist
  | ok files =>
    rw [hfiles] at hlist
    have hfound : files.map (fun source => (source.path, source.content)) = _ :=
      Option.some.inj hlist
    obtain ⟨document, hdocument, hcatalogue, hwithout⟩ :=
      document_catalogues wellFormed_flawedDisk locate_flawedDisk open?_flawedDisk hfiles
    rw [hdocument] at hentries
    refine ⟨wellFormed_flawedDisk, open?_flawedDisk, files, document, rfl, ?_, hdocument,
      Option.some.inj hentries, ?_⟩
    · have hpaths := congrArg (List.map Prod.fst) hfound
      rwa [List.map_map] at hpaths
    · have hmem : ("bad.ts".toList, ⟨#[0xff]⟩) ∈
          files.map fun source => (source.path, source.content) := by
        rw [hfound]
        exact List.mem_cons_self
      obtain ⟨⟨path, content⟩, hsource, heq⟩ := List.mem_map.1 hmem
      obtain ⟨rfl, rfl⟩ : path = "bad.ts".toList ∧ content = ⟨#[0xff]⟩ := Prod.mk.inj heq
      have hnone := (hcatalogue.missing _ hsource).2 (.inl (by decide +kernel))
      have hplace : ["p".toList] ++ "bad.ts".toList.splitOn '/' = ["p".toList, "bad.ts".toList] := by
        decide +kernel
      have hignore : flawedDisk.locate (Path.joined flawedProject.root broadConfig.ignoreFile.toList) ≠
          .ok ["p".toList, "bad.ts".toList] := by
        show flawedDisk.locate "/p/.gitignore".toList ≠ _
        rw [locate_rules_flawedDisk]
        decide
      have hrest := hwithout _ hsource
      rw [hplace] at hrest
      cases herror : FileEntry.ofFile broadConfig flawedDisk
          (Path.joined flawedProject.root "bad.ts".toList) "bad.ts".toList with
      | error error => exact hrest error herror fun _ => hignore
      | ok entry =>
        rw [herror] at hnone
        cases hnone

end Project

end SourceAtlas
