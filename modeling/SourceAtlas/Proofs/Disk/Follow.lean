import SourceAtlas.Proofs.Disk.Tree

/-!
# Where paths lead

`Disk.Leads` says by rules where the segments of a path lead from a place, and `follow_eq_ok_iff`
that these are the answers of `Disk.follow`. A path that leads to a node still leads there after the
tree has grown, and the absolute path of a node leads to the node.
-/

namespace SourceAtlas

open Text

namespace Disk

/-- Whether a segment names an entry, and is neither empty nor one of the two with dots. -/
def Names (segment : List Char) : Prop :=
  segment ≠ [] ∧ segment ≠ ['.'] ∧ segment ≠ ['.', '.']

/-- Where segments lead from a place, with the number of links that may be followed. -/
inductive Leads (disk : Disk) (followLast : Bool) :
    Nat → List (List Char) → List (List Char) → Spot → Prop
  | done {links place} : Leads disk followLast links place [] (.present place)
  | idle {links place segment rest spot} (hdirectory : disk.isDirectoryAt place = true)
    (hidle : segment = [] ∨ segment = ['.']) (h : Leads disk followLast links place rest spot) :
    Leads disk followLast links place (segment :: rest) spot
  | parent {links place rest spot} (hdirectory : disk.isDirectoryAt place = true)
    (h : Leads disk followLast links place.dropLast rest spot) :
    Leads disk followLast links place (['.', '.'] :: rest) spot
  | absent {links place segment rest} (hdirectory : disk.isDirectoryAt place = true)
    (hnames : Names segment) (hnone : disk.root.get? (place ++ [segment]) = none)
    (hrest : rest.all List.isEmpty = true) :
    Leads disk followLast links place (segment :: rest) (.absent place segment !rest.isEmpty)
  | stop {links place segment target} (hdirectory : disk.isDirectoryAt place = true)
    (hnames : Names segment)
    (hlink : disk.root.get? (place ++ [segment]) = some (.link target))
    (hlast : followLast = false) :
    Leads disk followLast links place [segment] (.present (place ++ [segment]))
  | link {links place segment target rest spot} (hdirectory : disk.isDirectoryAt place = true)
    (hnames : Names segment)
    (hlink : disk.root.get? (place ++ [segment]) = some (.link target))
    (hfollow : (rest.isEmpty && !followLast) = false) (htarget : target ≠ [])
    (h : Leads disk followLast links (if Path.isAbsolute target then [] else place)
      (target.splitOn '/' ++ rest) spot) :
    Leads disk followLast (links + 1) place (segment :: rest) spot
  | child {links place segment tree rest spot} (hdirectory : disk.isDirectoryAt place = true)
    (hnames : Names segment) (htree : disk.root.get? (place ++ [segment]) = some tree)
    (hlink : ∀ target, tree ≠ .link target)
    (h : Leads disk followLast links (place ++ [segment]) rest spot) :
    Leads disk followLast links place (segment :: rest) spot

theorem names_iff {segment : List Char} :
    Names segment ↔ ¬ (segment.isEmpty || decide (segment = ['.'])) = true ∧
      ¬ segment = ['.', '.'] := by
  simp [Names, and_assoc]

/-- What `follow` answers agrees with the rules. -/
theorem leads_of_follow {disk : Disk} {followLast : Bool} {links : Nat}
    {place segments : List (List Char)} {spot : Spot}
    (h : disk.follow followLast links place segments = .ok spot) :
    Leads disk followLast links place segments spot := by
  fun_induction disk.follow followLast links place segments with
  | case1 links place =>
    cases h
    exact .done
  | case2 => cases h
  | case3 links place segment rest hdirectory hidle ih =>
    exact .idle (by simpa using hdirectory) (by simpa using hidle) (ih h)
  | case4 links place rest hdirectory _ ih => exact .parent (by simpa using hdirectory) (ih h)
  | case5 links place segment rest hdirectory hidle hparent hnone hrest =>
    cases h
    exact .absent (by simpa using hdirectory) (names_iff.2 ⟨hidle, hparent⟩) hnone hrest
  | case6 => cases h
  | case7 links place segment rest hdirectory hidle hparent target hlink hlast =>
    cases h
    simp only [Bool.and_eq_true, List.isEmpty_iff, Bool.not_eq_true'] at hlast
    obtain ⟨rfl, hlast⟩ := hlast
    exact .stop (by simpa using hdirectory) (names_iff.2 ⟨hidle, hparent⟩) hlink hlast
  | case8 => cases h
  | case9 => cases h
  | case10 place segment rest hdirectory hidle hparent target hlink hfollow links htarget habsolute
      ih =>
    refine .link (by simpa using hdirectory) (names_iff.2 ⟨hidle, hparent⟩) hlink
      (by simpa using hfollow) (by simpa using htarget) ?_
    rw [if_pos habsolute]
    exact ih h
  | case11 place segment rest hdirectory hidle hparent target hlink hfollow links htarget habsolute
      ih =>
    refine .link (by simpa using hdirectory) (names_iff.2 ⟨hidle, hparent⟩) hlink
      (by simpa using hfollow) (by simpa using htarget) ?_
    rw [if_neg habsolute]
    exact ih h
  | case12 links place segment rest hdirectory hidle hparent tree htree hget ih =>
    exact .child (by simpa using hdirectory) (names_iff.2 ⟨hidle, hparent⟩) hget htree (ih h)

/-- What the rules allow is what `follow` answers. -/
theorem follow_of_leads {disk : Disk} {followLast : Bool} {links : Nat}
    {place segments : List (List Char)} {spot : Spot}
    (h : Leads disk followLast links place segments spot) :
    disk.follow followLast links place segments = .ok spot := by
  induction h with
  | done => rw [follow]
  | idle hdirectory hidle _ ih =>
    rw [follow, if_neg (by simpa using hdirectory), if_pos (by simpa using hidle)]
    exact ih
  | parent hdirectory _ ih =>
    rw [follow, if_neg (by simpa using hdirectory), if_neg (by decide), if_pos rfl]
    exact ih
  | absent hdirectory hnames hnone hrest =>
    obtain ⟨hidle, hparent⟩ := names_iff.1 hnames
    rw [follow, if_neg (by simpa using hdirectory), if_neg hidle, if_neg hparent, hnone]
    exact if_pos hrest
  | stop hdirectory hnames hlink hlast =>
    obtain ⟨hidle, hparent⟩ := names_iff.1 hnames
    rw [follow, if_neg (by simpa using hdirectory), if_neg hidle, if_neg hparent, hlink]
    exact if_pos (by simp [hlast])
  | link hdirectory hnames hlink hfollow htarget _ ih =>
    obtain ⟨hidle, hparent⟩ := names_iff.1 hnames
    rw [follow, if_neg (by simpa using hdirectory), if_neg hidle, if_neg hparent, hlink]
    show (if _ then _ else if _ then _ else if _ then _ else _) = _
    rw [if_neg (by simpa using hfollow), if_neg (by simpa using htarget)]
    split
    next habsolute => rwa [if_pos habsolute] at ih
    next habsolute => rwa [if_neg habsolute] at ih
  | child hdirectory hnames htree hlink _ ih =>
    obtain ⟨hidle, hparent⟩ := names_iff.1 hnames
    rw [follow, if_neg (by simpa using hdirectory), if_neg hidle, if_neg hparent, htree]
    split
    next heq => cases heq
    next heq => exact absurd (Option.some.inj heq) (hlink _)
    next => exact ih

theorem follow_eq_ok_iff {disk : Disk} {followLast : Bool} {links : Nat}
    {place segments : List (List Char)} {spot : Spot} :
    disk.follow followLast links place segments = .ok spot ↔
      Leads disk followLast links place segments spot :=
  ⟨leads_of_follow, follow_of_leads⟩

/-! ### What paths lead to -/

theorem isDirectoryAt_iff {disk : Disk} {place : List (List Char)} :
    disk.isDirectoryAt place = true ↔
      ∃ entries, disk.root.get? place = some (.directory entries) := by
  rw [isDirectoryAt, Option.any_eq_true]
  constructor
  · rintro ⟨tree, hget, htree⟩
    cases tree with
    | file content => cases htree
    | link target => cases htree
    | directory entries => exact ⟨entries, hget⟩
  · rintro ⟨entries, hget⟩
    exact ⟨_, hget, rfl⟩

/-- Above a directory there are directories. -/
theorem isDirectoryAt_dropLast {disk : Disk} {place : List (List Char)}
    (h : disk.isDirectoryAt place = true) : disk.isDirectoryAt place.dropLast = true := by
  rcases List.eq_nil_or_concat' place with rfl | ⟨above, name, rfl⟩
  · exact h
  · obtain ⟨entries, hget⟩ := isDirectoryAt_iff.1 h
    rw [List.dropLast_concat, isDirectoryAt_iff]
    exact FileTree.get?_above hget

/-- Whether there is a node at a place that is not a link. -/
def Stands (disk : Disk) (place : List (List Char)) : Prop :=
  ∃ tree, disk.root.get? place = some tree ∧ ∀ target, tree ≠ .link target

theorem stands_of_isDirectoryAt {disk : Disk} {place : List (List Char)}
    (h : disk.isDirectoryAt place = true) : disk.Stands place := by
  obtain ⟨entries, hget⟩ := isDirectoryAt_iff.1 h
  exact ⟨_, hget, by rintro target ⟨⟩⟩

/-- A path whose links are followed leads to a node that is not a link. -/
theorem Leads.stands {disk : Disk} {links : Nat} {place segments found : List (List Char)}
    (h : Leads disk true links place segments (.present found))
    (hplace : segments = [] → disk.Stands place) : disk.Stands found := by
  generalize hspot : Spot.present found = spot at h
  induction h with
  | done =>
    cases hspot
    exact hplace rfl
  | idle hdirectory _ _ ih => exact ih (fun _ => stands_of_isDirectoryAt hdirectory) hspot
  | parent hdirectory _ ih =>
    exact ih (fun _ => stands_of_isDirectoryAt (isDirectoryAt_dropLast hdirectory)) hspot
  | absent => cases hspot
  | stop _ _ _ hlast => cases hlast
  | @link _ _ _ target rest _ _ _ _ _ _ _ ih =>
    refine ih (fun hnil => ?_) hspot
    exact absurd (List.append_eq_nil_iff.1 hnil).1 (List.splitOn_ne_nil '/' target)
  | child _ _ htree hlink _ ih => exact ih (fun _ => ⟨_, htree, hlink⟩) hspot

/-- Where a name is missing, it can be given to an entry. -/
theorem Leads.free {disk : Disk} {followLast asDirectory : Bool} {links : Nat}
    {place segments directory : List (List Char)} {name : List Char}
    (h : Leads disk followLast links place segments (.absent directory name asDirectory))
    (hsegments : ∀ segment ∈ segments, '/' ∉ segment) :
    disk.isDirectoryAt directory = true ∧ disk.root.get? (directory ++ [name]) = none ∧
      FileTree.IsName name := by
  generalize hspot : Spot.absent directory name asDirectory = spot at h
  induction h with
  | done => cases hspot
  | idle _ _ _ ih => exact ih (fun segment hmem => hsegments segment (by simp [hmem])) hspot
  | parent _ _ ih => exact ih (fun segment hmem => hsegments segment (by simp [hmem])) hspot
  | absent hdirectory hnames hnone _ =>
    cases hspot
    exact ⟨hdirectory, hnone, hnames.1, hsegments name (by simp), hnames.2⟩
  | stop => cases hspot
  | @link _ _ _ target rest _ _ _ _ _ _ _ ih =>
    refine ih (fun segment hmem => ?_) hspot
    rcases List.mem_append.1 hmem with hmem | hmem
    · exact notMem_of_mem_splitOn hmem
    · exact hsegments segment (by simp [hmem])
  | child _ _ _ _ _ ih => exact ih (fun segment hmem => hsegments segment (by simp [hmem])) hspot

/-- Where a path starts. -/
def startOf (disk : Disk) (path : List Char) : List (List Char) :=
  if Path.isAbsolute path then [] else disk.workingDirectory

theorem spot_eq_ok_iff {disk : Disk} {followLast : Bool} {path : List Char} {spot : Spot} :
    disk.spot followLast path = .ok spot ↔
      path ≠ [] ∧ Leads disk followLast maxLinks (disk.startOf path) (path.splitOn '/') spot := by
  rw [Disk.spot, startOf]
  by_cases hpath : path = []
  · simp [hpath]
  · rw [if_neg (by simpa using hpath)]
    split <;> simp [hpath, follow_eq_ok_iff]

theorem locate_eq_ok_iff {disk : Disk} {path : List Char} {place : List (List Char)} :
    disk.locate path = .ok place ↔ disk.spot true path = .ok (.present place) := by
  rw [locate]
  split
  next h => simp [h]
  next h => simp [h]
  next h => simp [h]

/-- A path leads somewhere only if the root is a directory. -/
theorem isDirectoryAt_root_of_spot {disk : Disk} {followLast : Bool} {path : List Char}
    {spot : Spot}
    (h : disk.spot followLast path = .ok spot) : disk.isDirectoryAt [] = true := by
  have hstart : disk.isDirectoryAt (disk.startOf path) = true := by
    have hleads := (spot_eq_ok_iff.1 h).2
    cases hsegments : path.splitOn '/' with
    | nil => exact absurd hsegments (List.splitOn_ne_nil '/' path)
    | cons segment rest =>
      rw [hsegments] at hleads
      cases hleads <;> assumption
  cases hplace : disk.startOf path with
  | nil => rwa [hplace] at hstart
  | cons name names =>
    obtain ⟨entries, hget⟩ := isDirectoryAt_iff.1 hstart
    rw [hplace] at hget
    exact isDirectoryAt_iff.2 (@FileTree.get?_above _ _ [] names name hget)

theorem stands_of_spot {disk : Disk} {path : List Char} {place : List (List Char)}
    (h : disk.spot true path = .ok (.present place)) : disk.Stands place :=
  (spot_eq_ok_iff.1 h).2.stands fun hnil => absurd hnil (List.splitOn_ne_nil '/' path)

theorem free_of_spot {disk : Disk} {followLast asDirectory : Bool} {path : List Char}
    {directory : List (List Char)} {name : List Char}
    (h : disk.spot followLast path = .ok (.absent directory name asDirectory)) :
    disk.isDirectoryAt directory = true ∧ disk.root.get? (directory ++ [name]) = none ∧
      FileTree.IsName name :=
  (spot_eq_ok_iff.1 h).2.free fun _ => notMem_of_mem_splitOn

end Disk

/-! ### Growing trees -/

/-- Whether a tree still holds the nodes of an earlier one: its directories and links, and files in
the places of its files. -/
structure FileTree.Grows (before after : FileTree) : Prop where
  directory : ∀ {place entries}, before.get? place = some (.directory entries) →
    ∃ entries', after.get? place = some (.directory entries')
  link : ∀ {place target}, before.get? place = some (.link target) →
    after.get? place = some (.link target)
  file : ∀ {place content}, before.get? place = some (.file content) →
    ∃ content', after.get? place = some (.file content')

namespace FileTree.Grows

theorem refl (tree : FileTree) : tree.Grows tree :=
  ⟨fun h => ⟨_, h⟩, fun h => h, fun h => ⟨_, h⟩⟩

theorem trans {first second third : FileTree} (h : first.Grows second) (h' : second.Grows third) :
    first.Grows third where
  directory hget := by
    obtain ⟨entries, hget⟩ := h.directory hget
    exact h'.directory hget
  link hget := h'.link (h.link hget)
  file hget := by
    obtain ⟨content, hget⟩ := h.file hget
    exact h'.file hget

end FileTree.Grows

namespace Disk

section Grows

variable {before after : Disk} (hgrows : before.root.Grows after.root)

include hgrows

theorem isDirectoryAt_of_grows {place : List (List Char)}
    (h : before.isDirectoryAt place = true) : after.isDirectoryAt place = true := by
  obtain ⟨entries, hget⟩ := isDirectoryAt_iff.1 h
  exact isDirectoryAt_iff.2 (hgrows.directory hget)

theorem stands_of_grows {place : List (List Char)} (h : before.Stands place) :
    after.Stands place := by
  obtain ⟨tree, hget, hlink⟩ := h
  cases tree with
  | file content =>
    obtain ⟨content', hget⟩ := hgrows.file hget
    exact ⟨_, hget, by rintro target ⟨⟩⟩
  | link target => exact absurd rfl (hlink target)
  | directory entries =>
    obtain ⟨entries', hget⟩ := hgrows.directory hget
    exact ⟨_, hget, by rintro target ⟨⟩⟩

/-- A path that leads to a node keeps leading there. If it led to a missing name, it leads there once
the name is given to a file. -/
theorem Leads.of_grows {followLast : Bool} {links : Nat} {place segments : List (List Char)}
    {spot : Spot} (h : Leads before followLast links place segments spot)
    {found : List (List Char)}
    (hspot : spot = .present found ∨ ∃ directory name, spot = .absent directory name false ∧
      found = directory ++ [name] ∧ after.Stands found) :
    Leads after followLast links place segments (.present found) := by
  induction h with
  | done =>
    rcases hspot with hspot | ⟨directory, name, hspot, -⟩
    · cases hspot
      exact .done
    · cases hspot
  | idle hdirectory hidle _ ih =>
    exact .idle (isDirectoryAt_of_grows hgrows hdirectory) hidle (ih hspot)
  | parent hdirectory _ ih => exact .parent (isDirectoryAt_of_grows hgrows hdirectory) (ih hspot)
  | @absent _ _ _ rest hdirectory hnames hnone _ =>
    rcases hspot with hspot | ⟨directory, name, hspot, rfl, tree, hget, hlink⟩
    · cases hspot
    · obtain rfl : rest = [] := by
        cases rest with
        | nil => rfl
        | cons => cases hspot
      cases hspot
      exact .child (isDirectoryAt_of_grows hgrows hdirectory) hnames hget hlink .done
  | stop hdirectory hnames hlink hlast =>
    rcases hspot with hspot | ⟨directory, name, hspot, -⟩
    · cases hspot
      exact .stop (isDirectoryAt_of_grows hgrows hdirectory) hnames (hgrows.link hlink) hlast
    · cases hspot
  | link hdirectory hnames hlink hfollow htarget _ ih =>
    exact .link (isDirectoryAt_of_grows hgrows hdirectory) hnames (hgrows.link hlink) hfollow
      htarget (ih hspot)
  | child hdirectory hnames htree hlink _ ih =>
    obtain ⟨tree, hget, hlink⟩ := stands_of_grows hgrows ⟨_, htree, hlink⟩
    exact .child (isDirectoryAt_of_grows hgrows hdirectory) hnames hget hlink (ih hspot)

theorem locate_of_grows (hworking : after.workingDirectory = before.workingDirectory)
    {path : List Char} {place : List (List Char)} (h : before.locate path = .ok place) :
    after.locate path = .ok place := by
  rw [locate_eq_ok_iff, spot_eq_ok_iff] at h ⊢
  refine ⟨h.1, ?_⟩
  rw [startOf, hworking]
  exact h.2.of_grows hgrows (.inl rfl)

end Grows

/-! ### Absolute paths -/

/-- The names of the nodes on the way to a node lead to it. -/
theorem leads_of_stands {disk : Disk} {followLast : Bool} {links : Nat}
    {place names : List (List Char)} (hnames : ∀ name ∈ names, FileTree.IsName name)
    (h : disk.Stands (place ++ names)) :
    Leads disk followLast links place names (.present (place ++ names)) := by
  induction names generalizing place with
  | nil =>
    rw [List.append_nil]
    exact .done
  | cons name names ih =>
    obtain ⟨hname, hnames⟩ := List.forall_mem_cons.1 hnames
    have hplace : disk.isDirectoryAt place = true := by
      obtain ⟨tree, hget, -⟩ := h
      exact isDirectoryAt_iff.2 (FileTree.get?_above hget)
    have hchild : disk.Stands (place ++ [name]) := by
      cases names with
      | nil => exact h
      | cons next names =>
        obtain ⟨tree, hget, -⟩ := h
        rw [← List.singleton_append, ← List.append_assoc] at hget
        exact stands_of_isDirectoryAt (isDirectoryAt_iff.2 (FileTree.get?_above hget))
    obtain ⟨tree, hget, hlink⟩ := hchild
    rw [← List.singleton_append, ← List.append_assoc] at h ⊢
    exact .child hplace ⟨hname.1, hname.2.2⟩ hget hlink (ih hnames h)

/-- The absolute path of a node leads to it. -/
theorem locate_absolutePath {disk : Disk} (hroot : disk.isDirectoryAt [] = true)
    {place : List (List Char)} (hnames : ∀ name ∈ place, FileTree.IsName name)
    (h : disk.Stands place) : disk.locate (absolutePath place) = .ok place := by
  have hsplit : (absolutePath place).splitOn '/' = [] :: (['/'].intercalate place).splitOn '/' := by
    simp [absolutePath, List.splitOn_cons_eq_if_modifyHead]
  have hstart : disk.startOf (absolutePath place) = [] := rfl
  rw [locate_eq_ok_iff, spot_eq_ok_iff, hstart, hsplit]
  refine ⟨by simp [absolutePath], .idle hroot (.inl rfl) ?_⟩
  by_cases hempty : place = []
  · subst hempty
    exact .idle hroot (.inl rfl) .done
  · rw [List.splitOn_intercalate '/' (fun name hname => (hnames name hname).2.1) hempty]
    exact leads_of_stands hnames h

end Disk

end SourceAtlas
