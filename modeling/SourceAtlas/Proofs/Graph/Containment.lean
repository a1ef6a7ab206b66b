import SourceAtlas.Proofs.Graph.Targets

/-!
# Imports stay below the root

Whatever an import says, the path that it is resolved to, and every path that is looked up on disk
on the way, is a path of names below the root or such a path with an extension. To say which paths
are looked up, `resolveAsking` resolves an import with the disk behind a monad, so that it learns
about the disk by asking only, and `recorded` answers with the questions written down. Nothing is
resolved exactly if the path that the import stands for climbs above the root or returns to it.
-/

namespace SourceAtlas

namespace Resolution

/-! ### Asking the disk -/

section Asking

variable {m : Type → Type} [Monad m]

/-- The first of several paths that has been visited or is a file on disk. The disk is asked about
a path only if it has not been visited. -/
def firstKnown (onDisk : List Char → m Bool) (known : PathTable) :
    List (List Char) → m (Option (List Char))
  | [] => pure none
  | path :: rest => do
    let found ← if (find? known (String.ofList path)).isSome then pure true else onDisk path
    if found then pure (some path) else firstKnown onDisk known rest

/-- The path that an import most likely refers to, with the disk asked through a monad. -/
def resolveAsking (config : Config) (onDisk : List Char → m Bool) (known : PathTable)
    (importer specifier : List Char) : m (Option (List Char)) :=
  match candidate? config importer specifier with
  | none => pure none
  | some path =>
    if config.allows path then pure (some path)
    else do
      let found ← firstKnown onDisk known (extended config path)
      pure (some (found.getD path))

end Asking

/-- The answer of a disk, with the question put after those that have been asked. -/
def recorded (onDisk : List Char → Bool) (path : List Char) : StateM (List (List Char)) Bool := do
  modify (· ++ [path])
  pure (onDisk path)

section Recorded

variable (setting : Setting) (known : PathTable)

theorem run_firstKnown_cons (path : List Char) (rest asked : List (List Char)) :
    (firstKnown (recorded setting.onDisk) known (path :: rest)).run asked =
      if (find? known (String.ofList path)).isSome then (some path, asked)
      else if setting.onDisk path then (some path, asked ++ [path])
      else (firstKnown (recorded setting.onDisk) known rest).run (asked ++ [path]) := by
  rw [firstKnown]
  cases (find? known (String.ofList path)).isSome with
  | true => rfl
  | false =>
    show (if setting.onDisk path then pure (some path) else
      firstKnown (recorded setting.onDisk) known rest).run (asked ++ [path]) = _
    cases setting.onDisk path <;> rfl

/-- The search finds the first known path, and asks about paths that it was given. -/
theorem exists_run_firstKnown (paths asked : List (List Char)) :
    ∃ more, (firstKnown (recorded setting.onDisk) known paths).run asked =
        (paths.find? (isKnown setting known), asked ++ more) ∧ more.Sublist paths := by
  induction paths generalizing asked with
  | nil => exact ⟨[], by rw [List.append_nil]; rfl, .slnil⟩
  | cons path rest ih =>
    rw [run_firstKnown_cons, List.find?_cons, isKnown]
    cases (find? known (String.ofList path)).isSome with
    | true => exact ⟨[], by simp, List.nil_sublist _⟩
    | false =>
      cases setting.onDisk path with
      | true => exact ⟨[path], by simp, (List.nil_sublist rest).cons_cons path⟩
      | false =>
        obtain ⟨more, hrun, hmore⟩ := ih (asked ++ [path])
        exact ⟨path :: more, by simpa using hrun, hmore.cons_cons path⟩

/-- The resolution asks about the candidate with extensions only, and its outcome is that of the
resolution that sees the whole disk. -/
theorem exists_run_resolveAsking (importer specifier : List Char) :
    ∃ asked, (resolveAsking setting.config (recorded setting.onDisk) known importer specifier).run [] =
        (resolve? setting known importer specifier, asked) ∧
      ∀ path ∈ asked, ∃ candidate,
        candidate? setting.config importer specifier = some candidate ∧
          path ∈ extended setting.config candidate := by
  rw [resolveAsking, resolve?]
  cases candidate? setting.config importer specifier with
  | none => exact ⟨[], rfl, by simp⟩
  | some candidate =>
    cases hallows : setting.config.allows candidate with
    | true => exact ⟨[], by simp only [Option.map_some, hallows]; rfl, by simp⟩
    | false =>
      obtain ⟨more, hrun, hmore⟩ :=
        exists_run_firstKnown setting known (extended setting.config candidate) []
      refine ⟨more, ?_, fun path hpath => ⟨candidate, rfl, hmore.subset hpath⟩⟩
      simp only [Option.map_some, hallows, Bool.false_eq_true, if_false, StateT.run_bind, hrun]
      rfl

end Recorded

/-! ### Candidates -/

section Candidate

variable {config : Config} {importer specifier : List Char}

theorem isBelowRoot_of_candidate? {path : List Char}
    (h : candidate? config importer specifier = some path) : Path.IsBelowRoot path := by
  obtain ⟨value, hvalue, hpath⟩ := Option.bind_eq_some_iff.1 h
  obtain ⟨hne, rfl⟩ := Text.nonEmpty?_eq_some_iff.1 hpath
  exact Path.isBelowRoot_of_normalize? hvalue hne

/-- An import names nothing below the root exactly if its path climbs above the root or returns to
it. -/
theorem candidate?_eq_none_iff : candidate? config importer specifier = none ↔
    Path.Climbs (joinedPath config importer specifier) ∨
      Path.Returns (joinedPath config importer specifier) := by
  rw [candidate?]
  generalize joinedPath config importer specifier = joined
  have hroot : Path.normalize? joined = some [] ↔ ¬ Path.Climbs joined ∧ Path.Returns joined :=
    Path.normalize?_eq_some_nil_iff
  have hclimbs : Path.normalize? joined = none ↔ Path.Climbs joined := Path.normalize?_eq_none_iff
  cases hvalue : Path.normalize? joined with
  | none => exact iff_of_true rfl (.inl (hclimbs.1 hvalue))
  | some value =>
    have hstays : ¬ Path.Climbs joined := by
      intro h
      rw [hclimbs.2 h] at hvalue
      cases hvalue
    rw [hvalue, Option.some.injEq] at hroot
    simp [Text.nonEmpty?, hroot, hstays]

end Candidate

/-- **Resolution never leaves the root.** The resolution of an import that writes down what it asks
the disk has the same outcome as `resolve?`. Its outcome and all the paths that it asks about are
paths of names below the root, or such paths with one of the extensions. The import stands for one
path, and there is no outcome exactly if that path climbs above the root or returns to it. -/
theorem resolve?_below_root (setting : Setting) (known : PathTable)
    (importer specifier : List Char) :
    (∃ asked,
      (resolveAsking setting.config (recorded setting.onDisk) known importer specifier).run [] =
          (resolve? setting known importer specifier, asked) ∧
        ∀ path ∈ (resolve? setting known importer specifier).toList ++ asked,
          ∃ base, Path.IsBelowRoot base ∧ (path = base ∨
            ∃ extension ∈ setting.config.extensions, path = base ++ extension.toList)) ∧
      ∃ path, (∀ other, StandsFor setting.config importer specifier other ↔ other = path) ∧
        (resolve? setting known importer specifier = none ↔
          Path.Climbs path ∨ Path.Returns path) := by
  constructor
  · obtain ⟨asked, hrun, hasked⟩ := exists_run_resolveAsking setting known importer specifier
    refine ⟨asked, hrun, ?_⟩
    intro path hpath
    rcases List.mem_append.1 hpath with hresult | hquestion
    · rw [resolve?_eq_map_probe, Option.mem_toList] at hresult
      obtain ⟨base, hbase, rfl⟩ := Option.map_eq_some_iff.1 hresult
      exact ⟨base, isBelowRoot_of_candidate? hbase,
        mem_cons_extended.1 (probe_mem setting known base)⟩
    · obtain ⟨base, hbase, hmem⟩ := hasked path hquestion
      exact ⟨base, isBelowRoot_of_candidate? hbase,
        mem_cons_extended.1 (List.mem_cons_of_mem _ hmem)⟩
  · refine ⟨joinedPath setting.config importer specifier, fun other => standsFor_iff, ?_⟩
    rw [resolve?_eq_map_probe, Option.map_eq_none_iff]
    exact candidate?_eq_none_iff

end Resolution

end SourceAtlas
