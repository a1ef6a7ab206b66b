import SourceAtlas.Config.File
import SourceAtlas.Proofs.Project.Changes
import SourceAtlas.Project.Basic

/-!
# Projects after a change

A project is opened by its root, its settings and its ignore file. A change of the disk that no walk
shows leaves the document of the project as it is, provided that the files which are consulted for
settings and ignore rules read as before.
-/

namespace SourceAtlas

open Text

namespace Disk

theorem isDirectory_of_locate {disk : Disk} {path : List Char} {place : List (List Char)}
    {entries : List (List Char × FileTree)} (h : disk.locate path = .ok place)
    (hget : disk.root.get? place = some (.directory entries)) : disk.isDirectory path = true := by
  simp only [isDirectory, node?, h, hget]
  rfl

/-- The path of a node without links leads to that node. -/
theorem locate_of_canonical {disk : Disk} {path root : List Char} (hwf : disk.root.WellFormed)
    (h : disk.canonical path = .ok root) :
    ∃ place, disk.locate path = .ok place ∧ root = absolutePath place ∧
      disk.locate root = .ok place := by
  rw [canonical] at h
  cases hlocate : disk.locate path with
  | error error =>
    rw [hlocate] at h
    cases h
  | ok place =>
    rw [hlocate] at h
    cases h
    have hspot := locate_eq_ok_iff.1 hlocate
    have hstands := stands_of_spot hspot
    obtain ⟨tree, hget, -⟩ := hstands
    exact ⟨place, rfl, rfl, locate_absolutePath (isDirectoryAt_root_of_spot hspot)
      (hwf.get? hget).2 (stands_of_spot hspot)⟩

end Disk

namespace Config

/-- The files that may hold the settings of a project. -/
def candidates (root : List Char) (file : Option (List Char)) : List (List Char) :=
  match file with
  | some path => [path]
  | none => fileNames.map fun name => Path.joined root name.toList

theorem readFile_congr {before after : Disk} {path : List Char}
    (h : (after.read path).toOption = (before.read path).toOption) :
    readFile after path = readFile before path := by
  rw [readFile, readFile, Disk.readText, Disk.readText]
  cases hafter : after.read path with
  | error error =>
    cases hbefore : before.read path with
    | error error' => rfl
    | ok content => simp [hafter, hbefore, Except.toOption] at h
  | ok content =>
    cases hbefore : before.read path with
    | error error => simp [hafter, hbefore, Except.toOption] at h
    | ok content' =>
      obtain rfl : content = content' := by simpa [hafter, hbefore, Except.toOption] using h
      rfl

/-- The settings are those from before if the files that may hold them read as before. -/
theorem load_congr {before after : Disk} {root : List Char} {file : Option (List Char)}
    (h : ∀ path ∈ candidates root file, (after.read path).toOption = (before.read path).toOption) :
    load after root file = load before root file := by
  have hsettings : settings after root file = settings before root file := by
    cases file with
    | some path => exact readFile_congr (h path (List.mem_singleton.2 rfl))
    | none =>
      have hfind : discover? after root = discover? before root := by
        refine List.find?_congr fun path hpath => ?_
        rw [Disk.isFile_eq, Disk.isFile_eq, h path hpath]
      rw [settings, settings, hfind]
      cases hdiscover : discover? before root with
      | none => rfl
      | some path => exact readFile_congr (h path (List.mem_of_find?_eq_some hdiscover))
  rw [load, load, hsettings]

/-- A project without a file that holds settings has the default ones. -/
theorem load_of_discover?_eq_none {disk : Disk} {root : List Char}
    (h : discover? disk root = none) : load disk root none = .ok {} := by
  have hfault : ({} : Config).fault? = none := by decide +kernel
  rw [load, settings, h]
  simp only [Option.or_none, hfault]

end Config

namespace Project

/-- The files that are consulted when a project is opened: those that may hold its settings, and its
ignore file if that is to be respected. -/
def consulted (root : List Char) (config : Config) (file : Option (List Char)) :
    List (List Char) :=
  Config.candidates root file ++
    if config.respectIgnoreFile then [Path.joined root config.ignoreFile.toList] else []

/-- Whether a change of a disk leaves what paths lead to alone: none of them leads to the changed
file, and none leads to a file now that did not lead to one before. -/
def Undisturbed (before after : Disk) (place : List (List Char)) (paths : List (List Char)) :
    Prop :=
  ∀ path ∈ paths, after.locate path ≠ .ok place ∧
    (after.isFile path = true → before.isFile path = true)

theorem open?_eq_ok_iff {disk : Disk} {path : List Char} {config : Config} {project : Project} :
    open? disk path config = .ok project ↔ ∃ place entries, disk.locate path = .ok place ∧
      disk.root.get? place = some (.directory entries) ∧
      project = ⟨Disk.absolutePath place, entries, config,
        ignoreFile? disk (Disk.absolutePath place) config⟩ := by
  rw [open?]
  constructor
  · intro h
    split at h
    next => cases h
    next place hlocate =>
      split at h
      next => cases h
      next entries hentries =>
        obtain ⟨tree, hget, htree⟩ := Option.bind_eq_some_iff.1 hentries
        cases tree <;> cases htree
        cases h
        exact ⟨place, entries, hlocate, hget, rfl⟩
  · rintro ⟨place, entries, hlocate, hget, rfl⟩
    simp only [hlocate, hget]
    rfl

/-- The root of a project is its path without links. -/
theorem root_of_open? {disk : Disk} {path root : List Char} {config : Config} {project : Project}
    (hwf : disk.root.WellFormed) (hroot : disk.canonical path = .ok root)
    (hopen : open? disk root config = .ok project) : project.root = root := by
  obtain ⟨top, -, rfl, htop⟩ := Disk.locate_of_canonical hwf hroot
  obtain ⟨top', entries, hlocate, -, rfl⟩ := open?_eq_ok_iff.1 hopen
  rw [htop, Except.ok.injEq] at hlocate
  rw [hlocate]

section Reopen

variable {before after : Disk} {path root : List Char} {config : Config}
  {file : Option (List Char)} {place : List (List Char)} {project : Project}

theorem load_of_undisturbed (hspares : Disk.Spares config place before after)
    (h : Undisturbed before after place (consulted root config file)) :
    Config.load after root file = Config.load before root file :=
  Config.load_congr fun path hpath =>
    have ⟨hother, hway⟩ := h path (List.mem_append_left _ hpath)
    hspares.read hother hway

theorem ignoreFile?_of_undisturbed (hspares : Disk.Spares config place before after)
    (h : Undisturbed before after place (consulted root config file)) :
    ignoreFile? after root config = ignoreFile? before root config := by
  rw [ignoreFile?, ignoreFile?]
  split
  next hrespect =>
    have ⟨hother, hway⟩ := h (Path.joined root config.ignoreFile.toList)
      (List.mem_append_right _ (by rw [if_pos hrespect]; exact List.mem_singleton.2 rfl))
    exact hspares.read hother hway
  next => rfl

theorem canonical_of_spares (hspares : Disk.Spares config place before after)
    (h : before.canonical path = .ok root) : after.canonical path = .ok root := by
  rw [Disk.canonical] at h ⊢
  cases hlocate : before.locate path with
  | error error =>
    rw [hlocate] at h
    cases h
  | ok found => rwa [Disk.locate_of_grows hspares.grows hspares.workingDirectory hlocate, ← hlocate]

/-- A project that is opened again has the same document. -/
theorem exists_open?_of_undisturbed (hspares : Disk.Spares config place before after)
    (hwf : before.root.WellFormed)
    (h : Undisturbed before after place (consulted root config file))
    (hroot : before.canonical path = .ok root) (hopen : open? before root config = .ok project) :
    after.isDirectory root = true ∧
      ∃ reopened, open? after root config = .ok reopened ∧
        reopened.document = project.document := by
  obtain ⟨top, -, rfl, htop⟩ := Disk.locate_of_canonical hwf hroot
  obtain ⟨top', entries, hlocate, hget, rfl⟩ := open?_eq_ok_iff.1 hopen
  obtain rfl : top = top' := by rwa [htop, Except.ok.injEq] at hlocate
  have hlocate' := Disk.locate_of_grows hspares.grows hspares.workingDirectory hlocate
  obtain ⟨entries', hget'⟩ := hspares.grows.directory hget
  refine ⟨Disk.isDirectory_of_locate hlocate' hget', _,
    open?_eq_ok_iff.2 ⟨top, entries', hlocate', hget', rfl⟩, ?_⟩
  have hignore := ignoreFile?_of_undisturbed hspares h
  simp only [document, sourceFiles, exclusion, hignore, hspares.sources hwf hget hget']

end Reopen

end Project

end SourceAtlas
