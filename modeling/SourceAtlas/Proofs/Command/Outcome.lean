import SourceAtlas.Command.Run

/-!
# Outcomes of commands

What a procedure does in a session is followed through its steps. An analysis that succeeds has
found the root, the settings and the document of its project, and has written the document.
-/

namespace SourceAtlas

/-- Makes the directory above a file, if the path of the file names one. -/
def Disk.prepare (disk : Disk) (path : List Char) : Disk × Option DiskError :=
  let above := (Path.parent? path).getD []
  if above.isEmpty then (disk, none) else disk.makeDirectories above

namespace Procedure

variable {α β ε : Type} {session last : Session} {b : β}

/-- The outcome of a procedure in a session, and the session after it. -/
def outcome (p : Procedure α) (session : Session) : Except CommandError α × Session :=
  p.run.run session

theorem outcome_disk_bind (f : Disk → Procedure β) (session : Session) :
    (disk >>= f).outcome session = (f session.disk).outcome session := rfl

theorem outcome_ofExcept_bind_of_ok {reason : ε → CommandError} {x : Except ε α} {a : α}
    (h : x = .ok a) (f : α → Procedure β) (session : Session) :
    (ofExcept reason x >>= f).outcome session = (f a).outcome session := by
  rw [h]
  rfl

theorem outcome_ofExcept_bind_eq_ok_iff {reason : ε → CommandError} {x : Except ε α}
    {f : α → Procedure β} : (ofExcept reason x >>= f).outcome session = (.ok b, last) ↔
      ∃ a, x = .ok a ∧ (f a).outcome session = (.ok b, last) := by
  cases x with
  | error error =>
    constructor
    · intro h
      cases h
    · rintro ⟨a, ha, -⟩
      cases ha
  | ok a =>
    constructor
    · intro h
      exact ⟨a, rfl, h⟩
    · rintro ⟨a', ha, h⟩
      cases ha
      exact h

theorem outcome_rootOf_bind (path : List Char) (f : List Char → Procedure β) (session : Session) :
    (rootOf path >>= f).outcome session =
      (ofExcept (.inaccessible path) (session.disk.canonical path) >>= f).outcome session := by
  rw [rootOf, bind_assoc, outcome_disk_bind]

theorem outcome_settings_bind (root : List Char) (file : Option (List Char))
    (f : Config → Procedure β) (session : Session) :
    (settings root file >>= f).outcome session =
      (ofExcept .config (Config.load session.disk root file) >>= f).outcome session := by
  rw [settings, bind_assoc, outcome_disk_bind]

theorem outcome_project_bind (root : List Char) (config : Config) (f : Project → Procedure β)
    (session : Session) : (project root config >>= f).outcome session =
      (ofExcept .analysis (Project.open? session.disk root config) >>= f).outcome session := by
  rw [project, bind_assoc, outcome_disk_bind]

theorem outcome_write_bind_eq_ok_iff {path : List Char} {text : String}
    {reason : DiskError → CommandError} {f : Unit → Procedure β} :
    (write path text reason >>= f).outcome session = (.ok b, last) ↔
      ∃ changed, session.disk.write path text.toUTF8 = .ok changed ∧
        (f ()).outcome { session with disk := changed } = (.ok b, last) := by
  rw [write, bind_assoc, outcome_disk_bind, bind_assoc]
  exact outcome_ofExcept_bind_eq_ok_iff

theorem outcome_makeDirectories_bind (path : List Char) (reason : DiskError → CommandError)
    (f : Unit → Procedure β) :
    (makeDirectories path reason >>= f).outcome session =
      ((match (session.disk.makeDirectories path).2 with
        | none => pure ()
        | some error => throw (reason error) : Procedure Unit) >>= f).outcome
        { session with disk := (session.disk.makeDirectories path).1 } := by
  rw [makeDirectories, bind_assoc, outcome_disk_bind, bind_assoc]
  rfl

theorem outcome_makeDirectories_bind_eq_ok_iff {path : List Char}
    {reason : DiskError → CommandError} {f : Unit → Procedure β} :
    (makeDirectories path reason >>= f).outcome session = (.ok b, last) ↔
      ∃ made, session.disk.makeDirectories path = (made, none) ∧
        (f ()).outcome { session with disk := made } = (.ok b, last) := by
  rw [outcome_makeDirectories_bind]
  rcases session.disk.makeDirectories path with ⟨made, _ | error⟩
  · constructor
    · intro h
      exact ⟨made, rfl, h⟩
    · rintro ⟨made', hmade, h⟩
      cases hmade
      exact h
  · constructor
    · intro h
      cases h
    · rintro ⟨made', hmade, -⟩
      cases hmade

theorem outcome_writeBelow_bind_eq_ok_iff {path : List Char} {text : String}
    {reason : DiskError → CommandError} {f : Unit → Procedure β} :
    (writeBelow path text reason >>= f).outcome session = (.ok b, last) ↔
      ∃ made changed, session.disk.prepare path = (made, none) ∧
        made.write path text.toUTF8 = .ok changed ∧
        (f ()).outcome { session with disk := changed } = (.ok b, last) := by
  rw [writeBelow, Disk.prepare]
  cases habove : ((Path.parent? path).getD []).isEmpty with
  | true =>
    simp only [Bool.not_true, Bool.false_eq_true, if_false, if_true, Prod.mk.injEq, and_true,
      outcome_write_bind_eq_ok_iff]
    constructor
    · rintro ⟨changed, hwrite, h⟩
      exact ⟨_, changed, rfl, hwrite, h⟩
    · rintro ⟨made, changed, rfl, hwrite, h⟩
      exact ⟨changed, hwrite, h⟩
  | false =>
    simp only [Bool.not_false, if_true, Bool.false_eq_true, if_false, bind_assoc,
      outcome_makeDirectories_bind_eq_ok_iff, outcome_write_bind_eq_ok_iff]
    constructor
    · rintro ⟨made, hmade, changed, hwrite, h⟩
      exact ⟨made, changed, hmade, hwrite, h⟩
    · rintro ⟨made, changed, hmade, hwrite, h⟩
      exact ⟨made, hmade, changed, hwrite, h⟩

end Procedure

namespace Command

open Procedure

variable {session later : Session} {path root : List Char} {config : Config} {document : Document}

theorem run_analyze (options : AnalyzeOptions) (session : Session) :
    run (.analyze options) session = options.run.outcome session := rfl

theorem run_graph (options : GraphOptions) (session : Session) :
    run (.graph options) session = options.run.outcome session := rfl

/-! ### Analyses -/

/-- What an analysis that writes its document to a path finds and does. -/
structure AnalyzeOptions.Yields (options : AnalyzeOptions) (disk : Disk) (path root : List Char)
    (config : Config) (document : Document) (written : Disk) : Prop where
  finds : disk.canonical options.path = .ok root
  loads : Config.load disk root options.config = .ok config
  lists : ∃ project, Project.open? disk root config = .ok project ∧ project.document = .ok document
  writes : ∃ made, disk.prepare path = (made, none) ∧
    made.write path document.toYaml.toUTF8 = .ok written

/-- An analysis succeeds exactly if each of its steps does. -/
theorem AnalyzeOptions.outcome_run_iff {options : AnalyzeOptions}
    (hstdout : options.stdout = false) (houtput : options.output = some path) :
    options.run.outcome session = (.ok success, later) ↔
      ∃ root config document written,
        options.Yields session.disk path root config document written ∧ later = { session with
          disk := written
          stderr := session.stderr ++ (Report.documentSummary false (String.ofList root)
            (some (String.ofList path)) (DocumentSummary.of document) ++ "\n") } := by
  rw [run, outcome_rootOf_bind, outcome_ofExcept_bind_eq_ok_iff]
  simp only [outcome_disk_bind]
  constructor
  · rintro ⟨root, hroot, h⟩
    split at h
    next => cases h
    next config hconfig =>
      rw [runWith] at h
      simp only [hstdout, houtput, Bool.false_eq_true, if_false, Option.getD_some,
        outcome_project_bind, outcome_ofExcept_bind_eq_ok_iff,
        outcome_writeBelow_bind_eq_ok_iff] at h
      obtain ⟨project, hopen, document, hdocument, made, written, hmade, hwritten, h⟩ := h
      cases h
      exact ⟨root, config, document, written,
        ⟨hroot, hconfig, ⟨project, hopen, hdocument⟩, made, hmade, hwritten⟩, rfl⟩
  · rintro ⟨root, config, document, written,
      ⟨hroot, hconfig, ⟨project, hopen, hdocument⟩, made, hmade, hwritten⟩, rfl⟩
    refine ⟨root, hroot, ?_⟩
    simp only [hconfig]
    rw [runWith]
    simp only [hstdout, houtput, Bool.false_eq_true, if_false, Option.getD_some,
      outcome_project_bind, outcome_ofExcept_bind_eq_ok_iff, outcome_writeBelow_bind_eq_ok_iff]
    exact ⟨project, hopen, document, hdocument, made, written, hmade, hwritten, rfl⟩

/-- An analysis succeeds whose steps do. -/
theorem exists_run_analyze {disk made written : Disk} {path root file : List Char}
    {settings : Option (List Char)} {config : Config} {project : Project} {document : Document}
    (hroot : disk.canonical path = .ok root)
    (hconfig : Config.load disk root settings = .ok config)
    (hopen : Project.open? disk root config = .ok project)
    (hdocument : project.document = .ok document)
    (hmade : disk.prepare file = (made, none))
    (hwrite : made.write file document.toYaml.toUTF8 = .ok written) :
    ∃ last : Session, last.disk = written ∧
      run (.analyze { path, config := settings, output := some file }) { disk } =
        (.ok success, last) := by
  refine ⟨_, ?_, (AnalyzeOptions.outcome_run_iff rfl rfl).2 ⟨root, config, document, written,
    ⟨hroot, hconfig, ⟨project, hopen, hdocument⟩, made, hmade, hwrite⟩, rfl⟩⟩
  rfl

/-! ### Graphs -/

/-- Prints a graph or writes it to a file. -/
def GraphOptions.deliver (options : GraphOptions) (graph : Graph) : Procedure Nat := do
  let text := graph.render options.pretty ++ "\n"
  match options.output with
  | none => print text
  | some path => writeBelow path text fun _ => .cannotWrite path
  notice (Report.graphSummary false (options.output.map String.ofList) (GraphSummary.of graph)
    ++ "\n")
  return success

theorem GraphOptions.outcome_deliver_of_output_eq_none {options : GraphOptions}
    (h : options.output = none) (graph : Graph) (session : Session) :
    (options.deliver graph).outcome session = (.ok success,
      { session with
        stdout := session.stdout ++ (graph.render options.pretty ++ "\n")
        stderr := session.stderr ++ (Report.graphSummary false none (GraphSummary.of graph)
          ++ "\n") }) := by
  rw [deliver, h]
  rfl

/-- The graph of a document that records a root which is there. -/
theorem GraphOptions.outcome_run_of_load {options : GraphOptions} {project : Project}
    (hsource : options.source = some path)
    (hload : Document.load session.disk path = .ok document)
    (hpath : document.root.path = some (String.ofList root))
    (hroot : session.disk.isDirectory root = true)
    (hconfig : Config.load session.disk root options.config = .ok config)
    (hopen : Project.open? session.disk root config = .ok project) :
    options.run.outcome session =
      (options.deliver (Graph.onDisk config session.disk document)).outcome session := by
  have hfilter : (((some document).bind fun document => document.root.path).map
      String.toList).filter session.disk.isDirectory = some root := by
    simp only [Option.bind_some, hpath, Option.map_some, String.toList_ofList, Option.filter_some,
      hroot, if_true]
  rw [run, outcome_disk_bind, hsource]
  simp only [Option.mapM_some, bind_map_left]
  rw [outcome_ofExcept_bind_of_ok hload, GraphOptions.root, bind_assoc, outcome_disk_bind]
  simp only [hfilter, pure_bind]
  rw [outcome_settings_bind, outcome_ofExcept_bind_of_ok hconfig, outcome_project_bind,
    outcome_ofExcept_bind_of_ok hopen]
  rfl

/-- The graph of a project. -/
theorem GraphOptions.outcome_run_of_document {options : GraphOptions} {project : Project}
    (hsource : options.source = none)
    (hroot : session.disk.canonical options.path = .ok root)
    (hconfig : Config.load session.disk root options.config = .ok config)
    (hopen : Project.open? session.disk root config = .ok project)
    (hdocument : project.document = .ok document) :
    options.run.outcome session =
      (options.deliver (Graph.onDisk config session.disk document)).outcome session := by
  rw [run, outcome_disk_bind, hsource]
  simp only [Option.mapM_none, pure_bind]
  rw [GraphOptions.root, bind_assoc, outcome_disk_bind]
  simp only [Option.bind_none, Option.map_none, Option.filter_none]
  rw [outcome_rootOf_bind, outcome_ofExcept_bind_of_ok hroot, outcome_settings_bind,
    outcome_ofExcept_bind_of_ok hconfig, outcome_project_bind, outcome_ofExcept_bind_of_ok hopen,
    outcome_ofExcept_bind_of_ok hdocument]
  rfl

end Command

end SourceAtlas
