import SourceAtlas.Disk.Write
import SourceAtlas.Proofs.Disk.Follow

/-!
# Trees in which a node is put

What a tree holds after a node was put at a place: the node there, a directory above it, and all
else as before. A well-formed tree stays well formed.
-/

namespace SourceAtlas

open Text

namespace FileTree

/-! ### Entries -/

theorem child?_putEntry (name other : List Char) (tree : FileTree)
    (entries : List (List Char × FileTree)) :
    (directory (putEntry name tree entries)).child? other =
      if other = name then some tree else (directory entries).child? other := by
  induction entries with
  | nil =>
    rw [putEntry]
    split
    next h => simp [child?_directory, h]
    next h => simp [child?_directory, Ne.symm h]
  | cons entry entries ih =>
    obtain ⟨n, child⟩ := entry
    simp only [child?_directory] at ih ⊢
    rw [putEntry]
    split
    · split
      next h => simp [h]
      next h => rw [List.find?_cons_of_neg (by simpa using Ne.symm h)]
    · split
      next heq =>
        subst heq
        split
        next h => simp [h]
        next h => simp [Ne.symm h]
      next hne =>
        by_cases hn : n = other
        · have hother : ¬ other = name := fun h => hne (by rw [← h, hn])
          simp [hn, hother]
        · rw [List.find?_cons_of_neg (by simpa using hn),
            List.find?_cons_of_neg (by simpa using hn)]
          exact ih

theorem mem_putEntry {name other : List Char} {tree child : FileTree}
    {entries : List (List Char × FileTree)} (h : (other, child) ∈ putEntry name tree entries) :
    other = name ∧ child = tree ∨ (other, child) ∈ entries := by
  induction entries with
  | nil =>
    rw [putEntry, List.mem_singleton] at h
    cases h
    exact .inl ⟨rfl, rfl⟩
  | cons entry entries ih =>
    obtain ⟨n, t⟩ := entry
    rw [putEntry] at h
    split at h
    · rcases List.mem_cons.1 h with h | h
      · cases h
        exact .inl ⟨rfl, rfl⟩
      · exact .inr h
    · split at h
      next heq =>
        rcases List.mem_cons.1 h with h | h
        · cases h
          exact .inl ⟨heq.symm, rfl⟩
        · exact .inr (by simp [h])
      next =>
        rcases List.mem_cons.1 h with h | h
        · cases h
          exact .inr (by simp)
        · rcases ih h with h | h
          · exact .inl h
          · exact .inr (by simp [h])

theorem pairwise_putEntry {name : List Char} {tree : FileTree}
    {entries : List (List Char × FileTree)} (h : (entries.map Prod.fst).Pairwise (· < ·)) :
    ((putEntry name tree entries).map Prod.fst).Pairwise (· < ·) := by
  induction entries with
  | nil => simp [putEntry]
  | cons entry entries ih =>
    obtain ⟨n, t⟩ := entry
    obtain ⟨hless, hrest⟩ := List.pairwise_cons.1 h
    rw [putEntry]
    split
    next hlt =>
      refine List.pairwise_cons.2 ⟨fun other hother => ?_, h⟩
      rcases List.mem_cons.1 hother with rfl | hother
      · exact hlt
      · exact List.lt_trans hlt (hless other hother)
    next hlt =>
      split
      next => exact h
      next hne =>
        refine List.pairwise_cons.2 ⟨fun other hother => ?_, ih hrest⟩
        obtain ⟨⟨_, child⟩, hmem, rfl⟩ := List.mem_map.1 hother
        rcases mem_putEntry hmem with ⟨rfl, -⟩ | hmem
        · rcases List.le_iff_lt_or_eq.1 (List.not_lt.1 hlt) with hlt | heq
          · exact hlt
          · exact absurd heq.symm hne
        · exact hless _ (List.mem_map_of_mem hmem)

theorem wellFormed_putEntry {name : List Char} {tree : FileTree}
    {entries : List (List Char × FileTree)} (hwf : (directory entries).WellFormed)
    (hname : IsName name) (htree : tree.WellFormed) :
    (directory (putEntry name tree entries)).WellFormed := by
  refine ⟨pairwise_putEntry hwf.1, wellFormedAll_iff.2 fun n t hmem => ?_⟩
  rcases mem_putEntry hmem with ⟨rfl, rfl⟩ | hmem
  · exact ⟨hname, htree⟩
  · exact wellFormedAll_iff.1 hwf.2 n t hmem

/-! ### Nodes -/

theorem put_nil (new tree : FileTree) : put new [] tree = new := by rw [put]

theorem put_cons (new tree : FileTree) (name : List Char) (names : List (List Char)) :
    put new (name :: names) tree =
      .directory (putEntry name (put new names ((tree.child? name).getD (.directory [])))
        (tree.entries?.getD [])) := by
  rw [put]

theorem put_directory (new : FileTree) (entries : List (List Char × FileTree)) (name : List Char)
    (names : List (List Char)) :
    put new (name :: names) (.directory entries) =
      .directory (putEntry name
        (put new names (((directory entries).child? name).getD (.directory []))) entries) :=
  put_cons new (.directory entries) name names

/-- The entries of a node, none if it is not a directory. -/
theorem child?_entries (tree : FileTree) (name : List Char) :
    (directory (tree.entries?.getD [])).child? name = tree.child? name := by
  cases tree <;> rfl

/-- At the place stands what was put there. -/
theorem get?_put_self (new tree : FileTree) (names : List (List Char)) :
    (put new names tree).get? names = some new := by
  induction names generalizing tree with
  | nil => rw [put_nil, get?_nil]
  | cons name names ih =>
    rw [put_cons, get?_cons, child?_putEntry, if_pos rfl, Option.bind_some, ih]

/-- Above the place stands a directory with the changed entry. -/
theorem get?_put_above (new : FileTree) {tree : FileTree} {above below : List (List Char)}
    {name : List Char} {entries : List (List Char × FileTree)}
    (h : tree.get? above = some (.directory entries)) :
    (put new (above ++ name :: below) tree).get? above =
      some (put new (name :: below) (.directory entries)) := by
  induction above generalizing tree with
  | nil =>
    rw [get?_nil, Option.some.injEq] at h
    rw [h, List.nil_append, get?_nil]
  | cons first above ih =>
    rw [get?_cons, Option.bind_eq_some_iff] at h
    obtain ⟨child, hchild, h⟩ := h
    rw [List.cons_append, put_cons, get?_cons, child?_putEntry, if_pos rfl, Option.bind_some, hchild,
      Option.getD_some, ih h]

/-- All else stands as before. -/
theorem get?_put_elsewhere (new tree : FileTree) {names place : List (List Char)}
    (hbelow : ¬ names <+: place) (habove : ¬ place <+: names) :
    (put new names tree).get? place = tree.get? place := by
  induction names generalizing tree place with
  | nil => exact absurd (List.nil_prefix) hbelow
  | cons name names ih =>
    cases place with
    | nil => exact absurd (List.nil_prefix) habove
    | cons other place =>
      rw [put_cons, get?_cons, get?_cons, child?_putEntry, child?_entries]
      split
      next heq =>
        subst heq
        rw [List.prefix_cons_inj] at hbelow habove
        rw [Option.bind_some, ih _ hbelow habove]
        cases tree.child? other with
        | some child => rfl
        | none =>
          cases place with
          | nil => exact absurd (List.nil_prefix) habove
          | cons next place => rfl
      next => rfl

theorem WellFormed.put {new tree : FileTree} (hwf : tree.WellFormed) (hnew : new.WellFormed)
    {names : List (List Char)} (hnames : ∀ name ∈ names, IsName name) :
    (FileTree.put new names tree).WellFormed := by
  induction names generalizing tree with
  | nil =>
    rw [put_nil]
    exact hnew
  | cons name names ih =>
    obtain ⟨hname, hnames⟩ := List.forall_mem_cons.1 hnames
    have hentries : (directory (tree.entries?.getD [])).WellFormed := by
      cases tree with
      | directory entries => exact hwf
      | file content => exact ⟨List.Pairwise.nil, trivial⟩
      | link target => exact ⟨List.Pairwise.nil, trivial⟩
    have hchild : ((tree.child? name).getD (.directory [])).WellFormed := by
      rw [← child?_entries]
      cases hfound : (directory (tree.entries?.getD [])).child? name with
      | none => exact ⟨List.Pairwise.nil, trivial⟩
      | some child => exact (wellFormedAll_iff.1 hentries.2 _ _ (mem_of_child? hfound)).2
    rw [put_cons]
    exact wellFormed_putEntry hentries hname (ih hchild hnames)

/-! ### Places that are free for a node -/

/-- Whether a node may be put under a name in a directory: the name is missing there, or it is that
of a file, and the node is a file. -/
structure Takes (tree : FileTree) (above : List (List Char)) (name : List Char)
    (new : FileTree) : Prop where
  isDirectory : ∃ entries, tree.get? above = some (.directory entries)
  isName : IsName name
  free : tree.get? (above ++ [name]) = none ∨
    ∃ old content, tree.get? (above ++ [name]) = some (.file old) ∧ new = .file content

namespace Takes

variable {tree new : FileTree} {above place : List (List Char)} {name : List Char}

/-- A node lies at the place itself, above it, or out of its way; below it there is none. -/
theorem cases (h : tree.Takes above name new) {found : FileTree}
    (hfound : tree.get? place = some found) :
    (place = above ++ [name] ∧ ∃ old content, found = .file old ∧ new = .file content) ∨
      (∃ entries first below, found = .directory entries ∧
        above ++ [name] = place ++ first :: below) ∨
      (¬ above ++ [name] <+: place ∧ ¬ place <+: above ++ [name]) := by
  by_cases hbelow : above ++ [name] <+: place
  · obtain ⟨more, rfl⟩ := hbelow
    rw [get?_append] at hfound
    rcases h.free with hfree | ⟨old, content, hfree, hnew⟩
    · rw [hfree] at hfound
      cases hfound
    · rw [hfree] at hfound
      cases more with
      | nil =>
        cases hfound
        exact .inl ⟨List.append_nil _, old, content, rfl, hnew⟩
      | cons => cases hfound
  by_cases habove : place <+: above ++ [name]
  · obtain ⟨more, hmore⟩ := habove
    rcases List.eq_nil_or_concat' more with rfl | ⟨between, last, rfl⟩
    · rw [List.append_nil] at hmore
      exact absurd ⟨[], by rw [List.append_nil, hmore]⟩ hbelow
    · rw [← List.append_assoc] at hmore
      obtain ⟨hplace, -⟩ := List.append_inj' hmore rfl
      obtain ⟨entries, hentries⟩ := h.isDirectory
      have hdirectory : ∃ entries, tree.get? place = some (.directory entries) := by
        cases between with
        | nil => exact ⟨entries, by rwa [← hplace, List.append_nil] at hentries⟩
        | cons => exact get?_above (by rwa [← hplace] at hentries)
      obtain ⟨entries, hentries⟩ := hdirectory
      rw [hfound, Option.some.injEq] at hentries
      obtain ⟨first, below, hfirst⟩ := List.exists_cons_of_ne_nil
        (show between ++ [last] ≠ [] by simp)
      refine .inr (.inl ⟨entries, first, below, hentries, ?_⟩)
      rw [← hmore, List.append_assoc, hfirst]
  · exact .inr (.inr ⟨hbelow, habove⟩)

theorem grows (h : tree.Takes above name new) : tree.Grows (put new (above ++ [name]) tree) where
  directory hget := by
    rcases h.cases hget with ⟨-, old, content, hfile, -⟩ | ⟨entries, first, below, -, hplace⟩ |
      hother
    · cases hfile
    · rw [hplace, get?_put_above new hget, put_cons]
      exact ⟨_, rfl⟩
    · rw [get?_put_elsewhere new tree hother.1 hother.2]
      exact ⟨_, hget⟩
  link hget := by
    rcases h.cases hget with ⟨-, old, content, hfile, -⟩ | ⟨entries, first, below, hdirectory, -⟩ |
      hother
    · cases hfile
    · cases hdirectory
    · rw [get?_put_elsewhere new tree hother.1 hother.2, hget]
  file hget := by
    rcases h.cases hget with ⟨rfl, old, content, -, rfl⟩ | ⟨entries, first, below, hdirectory, -⟩ |
      hother
    · exact ⟨content, get?_put_self _ tree _⟩
    · cases hdirectory
    · rw [get?_put_elsewhere new tree hother.1 hother.2]
      exact ⟨_, hget⟩

/-- The content of every other file stays the same. -/
theorem get?_put_file (h : tree.Takes above name new) {content : ByteArray}
    (hplace : place ≠ above ++ [name]) (hget : tree.get? place = some (.file content)) :
    (put new (above ++ [name]) tree).get? place = some (.file content) := by
  rcases h.cases hget with ⟨heq, -⟩ | ⟨entries, first, below, hdirectory, -⟩ | hother
  · exact absurd heq hplace
  · cases hdirectory
  · rw [get?_put_elsewhere new tree hother.1 hother.2, hget]

theorem wellFormed_put (h : tree.Takes above name new) (hwf : tree.WellFormed)
    (hnew : new.WellFormed) : (put new (above ++ [name]) tree).WellFormed := by
  obtain ⟨entries, hentries⟩ := h.isDirectory
  refine hwf.put hnew fun n hn => ?_
  rcases List.mem_append.1 hn with hn | hn
  · exact (hwf.get? hentries).2 n hn
  · rw [List.mem_singleton.1 hn]
    exact h.isName

end Takes

end FileTree

end SourceAtlas
