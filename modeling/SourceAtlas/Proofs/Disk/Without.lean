import SourceAtlas.Proofs.Disk.Follow

/-!
# Trees from which a node is taken

What a tree holds after the node at a place was taken away: nothing at the place and below it, and
all else as before. If the node was a file, every path that did not lead to it leads where it led
before.
-/

namespace SourceAtlas

open Text

namespace FileTree

/-- A tree without the node at the end of a chain of names. -/
def without : List (List Char) → FileTree → FileTree
  | name :: names, directory entries =>
    if names.isEmpty then directory (entries.filter fun entry => entry.1 ≠ name)
    else directory (entries.map fun entry =>
      if entry.1 = name then (entry.1, without names entry.2) else entry)
  | _, tree => tree

@[simp] theorem without_nil (tree : FileTree) : tree.without [] = tree := by
  rw [without]
  simp

@[simp] theorem without_file (place : List (List Char)) (content : ByteArray) :
    (file content).without place = file content := by
  rw [without]
  simp

@[simp] theorem without_link (place : List (List Char)) (target : List Char) :
    (link target).without place = link target := by
  rw [without]
  simp

theorem without_singleton (name : List Char) (entries : List (List Char × FileTree)) :
    (directory entries).without [name] =
      directory (entries.filter fun entry => entry.1 ≠ name) := by
  rw [without]
  rfl

theorem without_cons {names : List (List Char)} (hnames : names ≠ []) (name : List Char)
    (entries : List (List Char × FileTree)) :
    (directory entries).without (name :: names) =
      directory (entries.map fun entry =>
        if entry.1 = name then (entry.1, entry.2.without names) else entry) := by
  rw [without, if_neg (by simpa using hnames)]

theorem exists_without_directory (place : List (List Char))
    (entries : List (List Char × FileTree)) :
    ∃ entries', (directory entries).without place = directory entries' := by
  cases place with
  | nil => exact ⟨entries, without_nil _⟩
  | cons name names =>
    by_cases hnames : names = []
    · subst hnames
      exact ⟨_, without_singleton name entries⟩
    · exact ⟨_, without_cons hnames name entries⟩

theorem eq_directory_of_without {tree : FileTree} {place : List (List Char)}
    {entries : List (List Char × FileTree)} (h : tree.without place = directory entries) :
    ∃ entries', tree = directory entries' := by
  cases tree with
  | file content => simp at h
  | link target => simp at h
  | directory entries' => exact ⟨entries', rfl⟩

theorem eq_link_of_without {tree : FileTree} {place : List (List Char)} {target : List Char}
    (h : tree.without place = link target) : tree = link target := by
  cases tree with
  | file content => simp at h
  | link target' => simpa using h
  | directory entries =>
    obtain ⟨entries', heq⟩ := exists_without_directory place entries
    simp [heq] at h

theorem eq_file_of_without {tree : FileTree} {place : List (List Char)} {content : ByteArray}
    (h : tree.without place = file content) : tree = file content := by
  cases tree with
  | file content' => simpa using h
  | link target => simp at h
  | directory entries =>
    obtain ⟨entries', heq⟩ := exists_without_directory place entries
    simp [heq] at h

/-! ### Lookups -/

theorem child?_without_singleton (name other : List Char) (tree : FileTree) :
    (tree.without [name]).child? other = if other = name then none else tree.child? other := by
  cases tree with
  | file content => simp
  | link target => simp
  | directory entries =>
    rw [without_singleton, child?_directory, child?_directory, List.find?_filter]
    split
    next heq =>
      subst heq
      rw [Option.map_eq_none_iff, List.find?_eq_none]
      simp
    next hne =>
      congr 2
      funext entry
      by_cases hentry : entry.1 = other
      · simp [hentry, hne]
      · simp [hentry]

theorem child?_without_cons {names : List (List Char)} (hnames : names ≠ []) (name other : List Char)
    (tree : FileTree) :
    (tree.without (name :: names)).child? other =
      if other = name then (tree.child? name).map (without names) else tree.child? other := by
  cases tree with
  | file content => simp
  | link target => simp
  | directory entries =>
    rw [without_cons hnames, child?_directory, child?_directory, child?_directory]
    induction entries with
    | nil => simp
    | cons entry entries ih =>
      rw [List.map_cons]
      by_cases hentry : entry.1 = name
      · by_cases hother : other = name
        · simp [hentry, hother]
        · have hne : ¬ name = other := fun h => hother h.symm
          simpa [hentry, hother, hne] using ih
      · by_cases hother : entry.1 = other
        · have hne : ¬ other = name := fun h => hentry (hother.trans h)
          simp [hother, hne]
        · simpa [hentry, hother] using ih

/-- At the place and below it stands nothing. -/
theorem get?_without_below (tree : FileTree) {place : List (List Char)} (hplace : place ≠ [])
    (more : List (List Char)) : (tree.without place).get? (place ++ more) = none := by
  induction place generalizing tree with
  | nil => exact absurd rfl hplace
  | cons name names ih =>
    rw [List.cons_append, get?_cons]
    by_cases hnames : names = []
    · subst hnames
      rw [child?_without_singleton, if_pos rfl, Option.bind_none]
    · rw [child?_without_cons hnames, if_pos rfl, Option.bind_eq_none_iff]
      intro child hchild
      obtain ⟨old, -, rfl⟩ := Option.map_eq_some_iff.1 hchild
      exact ih old hnames

/-- Above the place stands a directory without the node. -/
theorem get?_without_above (tree : FileTree) (above : List (List Char))
    {below : List (List Char)} (hbelow : below ≠ []) :
    (tree.without (above ++ below)).get? above = (tree.get? above).map (without below) := by
  induction above generalizing tree with
  | nil => simp
  | cons name above ih =>
    have hne : above ++ below ≠ [] := by simp [hbelow]
    rw [List.cons_append, get?_cons, get?_cons, child?_without_cons hne, if_pos rfl]
    cases tree.child? name with
    | none => rfl
    | some child => exact ih child

/-- All else stands as before. -/
theorem get?_without_elsewhere (tree : FileTree) {place other : List (List Char)}
    (hbelow : ¬ place <+: other) (habove : ¬ other <+: place) :
    (tree.without place).get? other = tree.get? other := by
  induction place generalizing tree other with
  | nil => exact absurd List.nil_prefix hbelow
  | cons name names ih =>
    cases other with
    | nil => exact absurd List.nil_prefix habove
    | cons first other =>
      rw [get?_cons, get?_cons]
      by_cases hfirst : first = name
      · subst hfirst
        rw [List.prefix_cons_inj] at hbelow habove
        have hnames : names ≠ [] := by
          rintro rfl
          exact hbelow List.nil_prefix
        rw [child?_without_cons hnames, if_pos rfl]
        cases tree.child? first with
        | none => rfl
        | some child => exact ih child hbelow habove
      · by_cases hnames : names = []
        · subst hnames
          rw [child?_without_singleton, if_neg hfirst]
        · rw [child?_without_cons hnames, if_neg hfirst]

/-- A node that is not below the place is still there; a directory may have lost an entry. -/
theorem exists_get?_without (tree : FileTree) {place other : List (List Char)}
    (h : ¬ place <+: other) :
    ∃ below, (tree.without place).get? other = (tree.get? other).map (without below) := by
  by_cases habove : other <+: place
  · obtain ⟨below, rfl⟩ := habove
    refine ⟨below, get?_without_above tree other ?_⟩
    rintro rfl
    exact h (by rw [List.append_nil])
  · refine ⟨[], ?_⟩
    rw [get?_without_elsewhere tree h habove]
    cases tree.get? other <;> simp

/-- Taking a node away is undone by growing. -/
theorem without_grows (tree : FileTree) {place : List (List Char)} (hplace : place ≠ []) :
    (tree.without place).Grows tree := by
  have hfound : ∀ {other found}, (tree.without place).get? other = some found →
      ∃ below old, tree.get? other = some old ∧ old.without below = found := by
    intro other found hget
    by_cases hother : place <+: other
    · obtain ⟨more, rfl⟩ := hother
      rw [get?_without_below tree hplace] at hget
      cases hget
    · obtain ⟨below, heq⟩ := exists_get?_without tree hother
      rw [heq, Option.map_eq_some_iff] at hget
      exact ⟨below, hget⟩
  refine ⟨fun hget => ?_, fun hget => ?_, fun hget => ?_⟩
  · obtain ⟨below, old, hold, heq⟩ := hfound hget
    obtain ⟨entries, rfl⟩ := eq_directory_of_without heq
    exact ⟨entries, hold⟩
  · obtain ⟨below, old, hold, heq⟩ := hfound hget
    rw [hold, eq_link_of_without heq]
  · obtain ⟨below, old, hold, heq⟩ := hfound hget
    exact ⟨_, by rw [hold, eq_file_of_without heq]⟩

/-- Below a file there is nothing. -/
theorem not_prefix_of_get?_file {tree found : FileTree} {place other : List (List Char)}
    {content : ByteArray} (hfile : tree.get? place = some (.file content))
    (h : tree.get? other = some found) (hother : other ≠ place) : ¬ place <+: other := by
  rintro ⟨more, rfl⟩
  rw [get?_append, hfile, Option.bind_some] at h
  cases more with
  | nil => exact hother (List.append_nil _)
  | cons name more => cases h

end FileTree

namespace Disk

/-- A disk without the node at a place. -/
def without (disk : Disk) (place : List (List Char)) : Disk :=
  { disk with root := disk.root.without place }

section File

variable {disk : Disk} {place : List (List Char)} {content : ByteArray}
  (hfile : disk.root.get? place = some (.file content))

include hfile

/-- All nodes but the file are still there; a directory may have lost an entry. -/
theorem exists_get?_without {other : List (List Char)} {found : FileTree}
    (h : disk.root.get? other = some found) (hother : other ≠ place) :
    ∃ below, (disk.without place).root.get? other = some (found.without below) := by
  obtain ⟨below, heq⟩ := FileTree.exists_get?_without disk.root
    (FileTree.not_prefix_of_get?_file hfile h hother)
  refine ⟨below, ?_⟩
  rw [without, heq, h, Option.map_some]

theorem isDirectoryAt_without {other : List (List Char)} (h : disk.isDirectoryAt other = true) :
    (disk.without place).isDirectoryAt other = true := by
  obtain ⟨entries, hget⟩ := isDirectoryAt_iff.1 h
  have hother : other ≠ place := by
    rintro rfl
    rw [hfile] at hget
    cases hget
  obtain ⟨below, hget'⟩ := exists_get?_without hfile hget hother
  obtain ⟨entries', heq⟩ := FileTree.exists_without_directory below entries
  exact isDirectoryAt_iff.2 ⟨entries', by rw [hget', heq]⟩

theorem get?_link_without {other : List (List Char)} {target : List Char}
    (h : disk.root.get? other = some (.link target)) :
    (disk.without place).root.get? other = some (.link target) := by
  have hother : other ≠ place := by
    rintro rfl
    rw [hfile] at h
    cases h
  obtain ⟨below, hget⟩ := exists_get?_without hfile h hother
  rw [hget, FileTree.without_link]

/-- From a file no segment leads anywhere. -/
theorem Leads.eq_of_file {followLast : Bool} {links : Nat} {segments found : List (List Char)}
    (h : Leads disk followLast links place segments (.present found)) : found = place := by
  have hnot : ¬ disk.isDirectoryAt place = true := by
    rw [isDirectoryAt_iff, hfile]
    rintro ⟨entries, ⟨⟩⟩
  cases h with
  | done => rfl
  | idle hdirectory => exact absurd hdirectory hnot
  | parent hdirectory => exact absurd hdirectory hnot
  | stop hdirectory => exact absurd hdirectory hnot
  | link hdirectory => exact absurd hdirectory hnot
  | child hdirectory => exact absurd hdirectory hnot

/-- A path that leads to another node than the file still leads there. -/
theorem Leads.without {followLast : Bool} {links : Nat} {start segments found : List (List Char)}
    (h : Leads disk followLast links start segments (.present found)) (hfound : found ≠ place) :
    Leads (disk.without place) followLast links start segments (.present found) := by
  generalize hspot : Spot.present found = spot at h ⊢
  induction h with
  | done => exact .done
  | idle hdirectory hidle _ ih =>
    exact .idle (isDirectoryAt_without hfile hdirectory) hidle (ih hspot)
  | parent hdirectory _ ih => exact .parent (isDirectoryAt_without hfile hdirectory) (ih hspot)
  | absent => cases hspot
  | stop hdirectory hnames hlink hlast =>
    exact .stop (isDirectoryAt_without hfile hdirectory) hnames (get?_link_without hfile hlink) hlast
  | link hdirectory hnames hlink hfollow htarget _ ih =>
    exact .link (isDirectoryAt_without hfile hdirectory) hnames (get?_link_without hfile hlink)
      hfollow htarget (ih hspot)
  | @child _ above segment tree _ _ hdirectory hnames htree hlink h ih =>
    subst hspot
    -- The way does not pass through the file, since it would end there.
    have hother : above ++ [segment] ≠ place := by
      rintro rfl
      exact hfound (h.eq_of_file hfile)
    obtain ⟨below, hget⟩ := exists_get?_without hfile htree hother
    refine .child (isDirectoryAt_without hfile hdirectory) hnames hget (fun target heq => ?_)
      (ih rfl)
    exact hlink target (FileTree.eq_link_of_without heq)

theorem locate_without {path : List Char} {found : List (List Char)}
    (h : disk.locate path = .ok found) (hfound : found ≠ place) :
    (disk.without place).locate path = .ok found := by
  rw [locate_eq_ok_iff, spot_eq_ok_iff] at h ⊢
  exact ⟨h.1, h.2.without hfile hfound⟩

/-- A path that does not lead to the file reads as before. -/
theorem read_without (hplace : place ≠ []) {path : List Char} (h : disk.locate path ≠ .ok place) :
    ((disk.without place).read path).toOption = (disk.read path).toOption := by
  cases hlocate : disk.locate path with
  | error error =>
    -- It led nowhere before, so it leads nowhere now.
    cases hlocate' : (disk.without place).locate path with
    | error error' =>
      rw [read, read, hlocate, hlocate']
      rfl
    | ok found =>
      have hback := @locate_of_grows (disk.without place) disk
        (FileTree.without_grows disk.root hplace) rfl path found hlocate'
      rw [hlocate] at hback
      cases hback
  | ok found =>
    have hfound : found ≠ place := by
      rintro rfl
      exact h hlocate
    have hlocate' := locate_without hfile hlocate hfound
    obtain ⟨tree, hget, -⟩ := stands_of_spot (locate_eq_ok_iff.1 hlocate)
    obtain ⟨below, hget'⟩ := exists_get?_without hfile hget hfound
    rw [read, read, hlocate, hlocate']
    simp only [hget, hget']
    cases tree with
    | file content' => rw [FileTree.without_file]
    | link target => rw [FileTree.without_link]
    | directory entries =>
      obtain ⟨entries', heq⟩ := FileTree.exists_without_directory below entries
      rw [heq]

end File

end Disk

end SourceAtlas
