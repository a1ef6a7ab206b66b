import SourceAtlas.Project.SourceFiles
import SourceAtlas.Proofs.Disk.Put

/-!
# Changes that no source file shows

A file without an allowed extension and an empty directory add nothing to the source files of a
project. `Disk.Spares` says what all such changes have in common, one after another; making
directories and writing a file are changes of this kind.
-/

namespace SourceAtlas

open Text

namespace FileTree

/-! ### Source files -/

section Walk

variable (config : Config) (exclusion : Exclusion) (path : List Char)

/-- What one entry of a directory adds to the walk. -/
def sourceFilesOf (name : List Char) (tree : FileTree) : List SourceFile :=
  if exclusion.excludes (Path.below path name) tree.isDirectory then []
  else sourceFiles config exclusion name (Path.below path name) tree

theorem sourceFilesIn_cons (name : List Char) (tree : FileTree)
    (entries : List (List Char × FileTree)) :
    sourceFilesIn config exclusion path ((name, tree) :: entries) =
      sourceFilesOf config exclusion path name tree ++
        sourceFilesIn config exclusion path entries := by
  rw [sourceFilesIn, sourceFilesOf]

/-- An entry in the place of another changes nothing if it adds the same to the walk. A new one must
add nothing. -/
theorem sourceFilesIn_putEntry {name : List Char} {new : FileTree}
    {entries : List (List Char × FileTree)} (hkeys : (entries.map Prod.fst).Pairwise (· < ·))
    (hnew : sourceFilesOf config exclusion path name new =
      (((directory entries).child? name).map (sourceFilesOf config exclusion path name)).getD []) :
    sourceFilesIn config exclusion path (putEntry name new entries) =
      sourceFilesIn config exclusion path entries := by
  induction entries with
  | nil =>
    rw [putEntry, sourceFilesIn_cons, hnew]
    rfl
  | cons entry entries ih =>
    obtain ⟨first, tree⟩ := entry
    obtain ⟨hless, hrest⟩ := List.pairwise_cons.1 hkeys
    rw [putEntry]
    split
    next hlt =>
      -- The name comes before all others, so it is new.
      have hnone : (directory ((first, tree) :: entries)).child? name = none := by
        refine Option.eq_none_iff_forall_ne_some.2 fun child hchild => ?_
        rcases List.mem_cons.1 (mem_of_child? hchild) with heq | hmem
        · cases heq
          exact List.lt_irrefl _ hlt
        · exact List.lt_irrefl _ (List.lt_trans hlt (hless name (List.mem_map.2 ⟨_, hmem, rfl⟩)))
      rw [sourceFilesIn_cons, hnew, hnone]
      rfl
    next hlt =>
      split
      next heq =>
        subst heq
        rw [sourceFilesIn_cons, sourceFilesIn_cons, hnew,
          child?_of_mem hkeys (List.mem_cons_self ..)]
        rfl
      next hne =>
        have hchild : (directory ((first, tree) :: entries)).child? name =
            (directory entries).child? name := by
          rw [child?_directory, child?_directory,
            List.find?_cons_of_neg (by simpa using Ne.symm hne)]
        rw [hchild] at hnew
        rw [sourceFilesIn_cons, sourceFilesIn_cons, ih hrest hnew]

end Walk

/-- Whether a node adds no source file under a name. -/
def Silent (config : Config) (name : List Char) (tree : FileTree) : Prop :=
  ∀ exclusion path, sourceFiles config exclusion name path tree = []

theorem silent_emptyDirectory (config : Config) (name : List Char) :
    Silent config name (.directory []) := fun _ _ => by rw [sourceFiles, sourceFilesIn]

theorem silent_file_iff {config : Config} {name : List Char} {content : ByteArray} :
    Silent config name (.file content) ↔ config.allows name = false := by
  constructor
  · intro h
    have hfile := h default []
    rw [sourceFiles] at hfile
    split at hfile
    next => cases hfile
    next hallows => simpa using hallows
  · intro h exclusion path
    rw [sourceFiles, h]
    rfl

/-- A place that is free in a tree is free in a directory above it. -/
theorem Takes.below {tree new : FileTree} {above between : List (List Char)} {name : List Char}
    {entries : List (List Char × FileTree)} (h : tree.Takes (above ++ between) name new)
    (hget : tree.get? above = some (.directory entries)) :
    (directory entries).Takes between name new := by
  have hbelow : ∀ more, tree.get? (above ++ more) = (directory entries).get? more := fun more => by
    rw [get?_append, hget, Option.bind_some]
  obtain ⟨hdirectory, hname, hfree⟩ := h
  rw [hbelow] at hdirectory
  rw [List.append_assoc, hbelow] at hfree
  exact ⟨hdirectory, hname, hfree⟩

/-- A silent node in a free place changes no walk. -/
theorem Takes.sourceFilesIn_put {config : Config} {new : FileTree} {above : List (List Char)}
    {name : List Char} {entries : List (List Char × FileTree)}
    (h : (directory entries).Takes above name new) (hwf : (directory entries).WellFormed)
    (hsilent : Silent config name new) :
    ∃ entries', put new (above ++ [name]) (directory entries) = directory entries' ∧
      ∀ exclusion path, sourceFilesIn config exclusion path entries' =
        sourceFilesIn config exclusion path entries := by
  induction above generalizing entries with
  | nil =>
    refine ⟨_, put_directory .., fun exclusion path => ?_⟩
    have hnothing : ∀ tree, Silent config name tree →
        sourceFilesOf config exclusion path name tree = [] := fun tree htree => by
      rw [sourceFilesOf, htree, ite_self]
    refine sourceFilesIn_putEntry config exclusion path hwf.1 ?_
    rw [put_nil, hnothing new hsilent]
    rcases h.free with hfree | ⟨old, content, hfree, rfl⟩
    · rw [List.nil_append, get?_cons, Option.bind_eq_none_iff] at hfree
      cases hchild : (directory entries).child? name with
      | none => rfl
      | some child => simpa using hfree child hchild
    · rw [List.nil_append, get?_cons, Option.bind_eq_some_iff] at hfree
      obtain ⟨child, hchild, hold⟩ := hfree
      rw [get?_nil, Option.some.injEq] at hold
      subst hold
      rw [hchild, Option.map_some, Option.getD_some,
        hnothing _ (silent_file_iff.2 (silent_file_iff.1 hsilent))]
  | cons first above ih =>
    obtain ⟨inner, hinner⟩ := h.isDirectory
    rw [get?_cons, Option.bind_eq_some_iff] at hinner
    obtain ⟨child, hchild, hinner⟩ := hinner
    obtain ⟨children, rfl⟩ := eq_directory_of_get? hinner
    have htakes : (directory children).Takes above name new := by
      refine ⟨⟨inner, hinner⟩, h.isName, ?_⟩
      have hfree := h.free
      rwa [List.cons_append, get?_cons, hchild] at hfree
    obtain ⟨hname, hchildwf⟩ := wellFormedAll_iff.1 hwf.2 _ _ (mem_of_child? hchild)
    obtain ⟨children', hput, hsame⟩ := ih htakes hchildwf
    refine ⟨_, put_directory .., fun exclusion path => ?_⟩
    refine sourceFilesIn_putEntry config exclusion path hwf.1 ?_
    rw [hchild, Option.getD_some, Option.map_some, Option.getD_some]
    show sourceFilesOf config exclusion path first (put new (above ++ [name]) _) = _
    rw [hput]
    simp only [sourceFilesOf, sourceFiles, hsame]
    rfl

end FileTree

namespace Disk

/-! ### Changes of a disk -/

/-- What a change of a disk spares: all directories and links are still there, all files except
perhaps one have their content, and no walk through a directory finds more or less. -/
structure Spares (config : Config) (place : List (List Char)) (before after : Disk) : Prop where
  workingDirectory : after.workingDirectory = before.workingDirectory
  grows : before.root.Grows after.root
  file : ∀ {other content}, other ≠ place → before.root.get? other = some (.file content) →
    after.root.get? other = some (.file content)
  wellFormed : before.root.WellFormed → after.root.WellFormed
  sources : ∀ {other entries entries'}, before.root.WellFormed →
    before.root.get? other = some (.directory entries) →
    after.root.get? other = some (.directory entries') → ∀ exclusion path,
      FileTree.sourceFilesIn config exclusion path entries' =
        FileTree.sourceFilesIn config exclusion path entries

namespace Spares

variable {config : Config} {place : List (List Char)} {first second third : Disk}

theorem refl (config : Config) (place : List (List Char)) (disk : Disk) :
    Spares config place disk disk where
  workingDirectory := rfl
  grows := .refl disk.root
  file _ h := h
  wellFormed h := h
  sources _ h h' _ _ := by
    rw [h, Option.some.injEq, FileTree.directory.injEq] at h'
    rw [h']

theorem trans (h : Spares config place first second) (h' : Spares config place second third) :
    Spares config place first third where
  workingDirectory := h'.workingDirectory.trans h.workingDirectory
  grows := h.grows.trans h'.grows
  file hother hget := h'.file hother (h.file hother hget)
  wellFormed hwf := h'.wellFormed (h.wellFormed hwf)
  sources hwf hget hget' exclusion path := by
    obtain ⟨entries, hbetween⟩ := h.grows.directory hget
    exact (h'.sources (h.wellFormed hwf) hbetween hget' exclusion path).trans
      (h.sources hwf hget hbetween exclusion path)

end Spares

/-- A silent node that is put in a free place spares all else. -/
theorem spares_putAt {config : Config} {disk : Disk} {above place : List (List Char)}
    {name : List Char} {new : FileTree} (htakes : disk.root.Takes above name new)
    (hnew : new.WellFormed) (hsilent : new.Silent config name)
    (hplace : place = above ++ [name] ∨ disk.root.get? (above ++ [name]) = none) :
    Spares config place disk (disk.putAt (above ++ [name]) new) where
  workingDirectory := rfl
  grows := htakes.grows
  file {other content} hother hget := by
    refine htakes.get?_put_file (fun heq => ?_) hget
    rcases hplace with hplace | hnone
    · exact hother (heq.trans hplace.symm)
    · rw [← heq, hget] at hnone
      cases hnone
  wellFormed hwf := htakes.wellFormed_put hwf hnew
  sources {other entries entries'} hwf hget hget' exclusion path := by
    rcases htakes.cases hget with ⟨-, old, content, hfile, -⟩ |
      ⟨children, first, below, -, hsplit⟩ | hother
    · cases hfile
    · obtain ⟨between, last, hbelow⟩ := (List.eq_nil_or_concat' (first :: below)).resolve_left
        (List.cons_ne_nil first below)
      rw [hbelow, ← List.append_assoc] at hsplit
      obtain ⟨rfl, hlast⟩ := List.append_inj' hsplit rfl
      cases hlast
      have hput := @FileTree.get?_put_above new _ _ below first _ hget
      obtain ⟨changed, hchanged, hsame⟩ := (htakes.below hget).sourceFilesIn_put
        (hwf.get? hget).1 hsilent
      rw [hbelow, ← List.append_assoc, hchanged] at hput
      have heq := hget'.symm.trans hput
      rw [Option.some.injEq, FileTree.directory.injEq] at heq
      rw [heq, hsame]
    · have hsame := FileTree.get?_put_elsewhere new disk.root hother.1 hother.2
      have heq := hget'.symm.trans (hsame.trans hget)
      rw [Option.some.injEq, FileTree.directory.injEq] at heq
      rw [heq]

/-- Making a directory that is not there yet spares all else. -/
theorem spares_makeDirectory {config : Config} {disk made : Disk} {path : List Char}
    (h : disk.makeDirectory path = .ok made) (place : List (List Char)) :
    Spares config place disk made := by
  rw [makeDirectory, make] at h
  split at h
  next => cases h
  next => cases h
  next above name asDirectory hspot =>
    cases h
    obtain ⟨hdirectory, hnone, hname⟩ := free_of_spot hspot
    exact spares_putAt ⟨isDirectoryAt_iff.1 hdirectory, hname, .inl hnone⟩
      ⟨List.Pairwise.nil, trivial⟩ (FileTree.silent_emptyDirectory config name) (.inr hnone)

/-- Making directories spares all else, also where it fails. -/
theorem spares_makeChain (config : Config) (place : List (List Char)) (disk : Disk)
    (paths : List (List Char)) : Spares config place disk (disk.makeChain paths).1 := by
  induction paths with
  | nil => exact .refl config place disk
  | cons path above ih =>
    rw [makeChain]
    split
    · exact .refl config place disk
    · split
      next made hmade => exact spares_makeDirectory hmade place
      next =>
        split
        next made hchain =>
          rw [hchain] at ih
          split
          next made' hmade => exact ih.trans (spares_makeDirectory hmade place)
          next => exact ih
        next => exact ih
      next => exact .refl config place disk

theorem spares_makeDirectories (config : Config) (place : List (List Char)) (disk : Disk)
    (path : List Char) : Spares config place disk (disk.makeDirectories path).1 :=
  spares_makeChain config place disk _

/-- A file that was written stands where its path leads. -/
theorem exists_of_write {disk written : Disk} {path : List Char} {content : ByteArray}
    (hwf : disk.root.WellFormed) (h : disk.write path content = .ok written) :
    ∃ above name, disk.root.Takes above name (.file content) ∧
      written = disk.putAt (above ++ [name]) (.file content) ∧
      written.locate path = .ok (above ++ [name]) := by
  have hstands : ∀ place, (disk.putAt place (.file content)).Stands place := fun place =>
    ⟨_, FileTree.get?_put_self _ disk.root place, by rintro target ⟨⟩⟩
  rw [write] at h
  split at h
  next => cases h
  next above name asDirectory hspot =>
    split at h
    next => cases h
    next hfile =>
      cases h
      obtain ⟨hdirectory, hnone, hname⟩ := free_of_spot hspot
      have htakes : disk.root.Takes above name (.file content) :=
        ⟨isDirectoryAt_iff.1 hdirectory, hname, .inl hnone⟩
      refine ⟨above, name, htakes, rfl, ?_⟩
      rw [locate_eq_ok_iff, spot_eq_ok_iff]
      obtain ⟨hpath, hleads⟩ := spot_eq_ok_iff.1 hspot
      obtain rfl : asDirectory = false := by simpa using hfile
      exact ⟨hpath, hleads.of_grows htakes.grows (.inr ⟨above, name, rfl, rfl, hstands _⟩)⟩
  next place hspot =>
    split at h
    next => cases h
    next hfile =>
      cases h
      have hroot := isDirectoryAt_root_of_spot hspot
      obtain ⟨tree, hget, hlink⟩ := stands_of_spot hspot
      obtain ⟨old, rfl⟩ : ∃ old, tree = .file old := by
        cases tree with
        | file old => exact ⟨old, rfl⟩
        | link target => exact absurd rfl (hlink target)
        | directory entries => exact absurd (isDirectoryAt_iff.2 ⟨entries, hget⟩) hfile
      obtain ⟨above, name, rfl⟩ := (List.eq_nil_or_concat' place).resolve_left (by
        rintro rfl
        exact hfile hroot)
      have htakes : disk.root.Takes above name (.file content) :=
        ⟨FileTree.get?_above hget, (hwf.get? hget).2 name (by simp), .inr ⟨old, content, hget, rfl⟩⟩
      refine ⟨above, name, htakes, rfl, ?_⟩
      rw [locate_eq_ok_iff, spot_eq_ok_iff]
      obtain ⟨hpath, hleads⟩ := spot_eq_ok_iff.1 hspot
      exact ⟨hpath, hleads.of_grows htakes.grows (.inl rfl)⟩

/-! ### What is read after a change -/

theorem read_of_locate {disk : Disk} {path : List Char} {place : List (List Char)}
    {content : ByteArray} (h : disk.locate path = .ok place)
    (hget : disk.root.get? place = some (.file content)) : disk.read path = .ok content := by
  simp only [read, h, hget]

theorem isFile_eq (disk : Disk) (path : List Char) :
    disk.isFile path = (disk.read path).toOption.isSome := by
  rw [isFile, node?, read]
  cases disk.locate path with
  | error error => rfl
  | ok place =>
    dsimp only
    rcases disk.root.get? place with _ | (content | target | entries) <;> rfl

/-- A path reads as before unless it leads to the changed file or did not lead to a file before. -/
theorem Spares.read {config : Config} {place : List (List Char)} {before after : Disk}
    (h : Spares config place before after) {path : List Char}
    (hother : after.locate path ≠ .ok place)
    (hway : after.isFile path = true → before.isFile path = true) :
    (after.read path).toOption = (before.read path).toOption := by
  cases hlocate : before.locate path with
  | error error =>
    have hbefore : (before.read path).toOption = none := by
      rw [Disk.read, hlocate]
      rfl
    -- No file was found before, so none may be found now.
    rw [isFile_eq, isFile_eq, hbefore] at hway
    rw [hbefore]
    cases hafter : (after.read path).toOption with
    | none => rfl
    | some content =>
      rw [hafter] at hway
      cases hway rfl
  | ok found =>
    have hlocate' := locate_of_grows h.grows h.workingDirectory hlocate
    have hne : found ≠ place := by
      rintro rfl
      exact hother hlocate'
    obtain ⟨tree, hget, hlink⟩ := stands_of_spot (locate_eq_ok_iff.1 hlocate)
    cases tree with
    | file content =>
      rw [read_of_locate hlocate hget, read_of_locate hlocate' (h.file hne hget)]
    | link target => exact absurd rfl (hlink target)
    | directory entries =>
      obtain ⟨entries', hget'⟩ := h.grows.directory hget
      simp only [Disk.read, hlocate, hlocate', hget, hget']

end Disk

end SourceAtlas
