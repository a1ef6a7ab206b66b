import Mathlib
import SourceAtlas.Proofs.Command.Outcome
import SourceAtlas.Proofs.Document.Order
import SourceAtlas.Proofs.Document.RoundTrip
import SourceAtlas.Proofs.Project.Reopen

/-!
# Graphs of written documents

The graph of a document that was written is the graph of its project. The file of the document must
not be a source file itself, and what is consulted for settings and ignore rules must not be
disturbed by it or by the directories that are made for it. Both conditions are needed: a link at
the end of the document's path and a directory on the way to the ignore file are the ways in which
the two graphs come to differ.
-/

namespace SourceAtlas

open Text

namespace Disk

theorem spares_of_prepare (config : Config) (place : List (List Char)) {disk made : Disk}
    {path : List Char} {error : Option DiskError} (h : disk.prepare path = (made, error)) :
    Spares config place disk made := by
  rw [prepare] at h
  split at h
  next =>
    cases h
    exact .refl config place disk
  next =>
    have hmade := spares_makeDirectories config place disk ((Path.parent? path).getD [])
    rwa [h] at hmade

section Write

variable {config : Config} {disk made written : Disk} {path : List Char} {content : ByteArray}
  {place : List (List Char)} {error : Option DiskError}

/-- A file that was written can be read. -/
theorem read_of_write (hwf : disk.root.WellFormed) (hmade : disk.prepare path = (made, error))
    (hwrite : made.write path content = .ok written) : written.read path = .ok content := by
  have hspares := spares_of_prepare {} [] hmade
  obtain ⟨above, name, -, rfl, hlocate⟩ := exists_of_write (hspares.wellFormed hwf) hwrite
  exact read_of_locate hlocate (FileTree.get?_put_self _ made.root _)

/-- A file without an allowed extension that is written spares all else. -/
theorem spares_of_write (hwf : disk.root.WellFormed) (hmade : disk.prepare path = (made, error))
    (hwrite : made.write path content = .ok written) (hplace : written.locate path = .ok place)
    (hname : config.allows (place.getLastD []) = false) : Spares config place disk written := by
  have hspares := spares_of_prepare config place hmade
  obtain ⟨above, name, htakes, rfl, hlocate⟩ := exists_of_write (hspares.wellFormed hwf) hwrite
  obtain rfl : above ++ [name] = place := by rwa [hlocate, Except.ok.injEq] at hplace
  rw [List.getLastD_concat] at hname
  exact hspares.trans (spares_putAt htakes trivial (FileTree.silent_file_iff.2 hname) (.inl rfl))

end Write

end Disk

namespace Document

/-- A document that was written can be loaded. -/
theorem load_of_written {disk : Disk} {path : List Char} {document : Document}
    (hordered : document.root.Ordered) (hdepth : document.value.depth ≤ Yaml.Decode.maxDepth)
    (hread : disk.read path = .ok document.toYaml.toUTF8) : load disk path = .ok document := by
  refine load_of_read ?_ hread
  rw [ofYaml?, toYaml, String.toList_ofList]
  exact Yaml.Decode.run?_of_entries (List.cons_ne_nil _ _) (decode_value hordered hdepth)

end Document

namespace Project

/-- A computed fact about the document of a project that has one. -/
theorem exists_document_of_any {project : Project} {p : Document → Bool}
    (h : project.document.toOption.any p = true) :
    ∃ document, project.document = .ok document ∧ p document = true := by
  cases hdocument : project.document with
  | error error =>
    rw [hdocument] at h
    cases h
  | ok document =>
    rw [hdocument] at h
    exact ⟨document, rfl, h⟩

theorem exists_documents_of_any {project : Project} {again : Document → Project}
    {p : Document → Document → Bool}
    (h : project.document.toOption.any (fun document =>
      (again document).document.toOption.any (p document)) = true) :
    ∃ document listed, project.document = .ok document ∧ (again document).document = .ok listed ∧
      p document listed = true := by
  obtain ⟨document, hdocument, hagain⟩ := exists_document_of_any h
  obtain ⟨listed, hlisted, hp⟩ := exists_document_of_any hagain
  exact ⟨document, listed, hdocument, hlisted, hp⟩

end Project

namespace Command

open Procedure

/-- **The graph of a document that was written is the graph of its project**, whatever path is given
beside the document. The file that the document went to has no allowed extension, and what is
consulted for settings and ignore rules is neither that file nor found only now. -/
theorem run_graph_written {session written : Session} {path root file : List Char}
    {settings : Option (List Char)} {config : Config} {project : Project} {document : Document}
    {place : List (List Char)} (hwf : session.disk.root.WellFormed)
    (hanalyze : run (.analyze { path, config := settings, output := some file }) session =
      (.ok success, written))
    (hroot : session.disk.canonical path = .ok root)
    (hconfig : Config.load session.disk root settings = .ok config)
    (hopen : Project.open? session.disk root config = .ok project)
    (hdocument : project.document = .ok document)
    (hdepth : document.value.depth ≤ Yaml.Decode.maxDepth)
    (hplace : written.disk.locate file = .ok place)
    (hname : config.allows (place.getLastD []) = false)
    (hconsulted : Project.Undisturbed session.disk written.disk place
      (Project.consulted root config settings))
    (options : GraphOptions) :
    run (.graph { options with config := settings, source := some file }) written =
        run (.graph { options with path, config := settings, source := none }) written ∧
      (options.output = none →
        (run (.graph { options with config := settings, source := some file }) written).1 =
          .ok success ∧
        (run (.graph { options with config := settings, source := some file }) written).2.stdout =
          written.stdout ++
            ((Graph.onDisk config written.disk document).render options.pretty ++ "\n")) := by
  rw [run_analyze, AnalyzeOptions.outcome_run_iff rfl rfl] at hanalyze
  obtain ⟨root', config', document', disk, hyields, hwritten⟩ := hanalyze
  obtain rfl : written.disk = disk := by rw [hwritten]
  obtain ⟨hroot', hconfig', ⟨project', hopen', hdocument'⟩, made, hmade, hwrite⟩ := hyields
  -- What the analysis found is what the hypotheses name.
  obtain rfl : root = root' := Except.ok.inj (hroot.symm.trans hroot')
  obtain rfl : config = config' := Except.ok.inj (hconfig.symm.trans hconfig')
  obtain rfl : project = project' := Except.ok.inj (hopen.symm.trans hopen')
  obtain rfl : document = document' := Except.ok.inj (hdocument.symm.trans hdocument')
  have hspares := Disk.spares_of_write hwf hmade hwrite hplace hname
  obtain ⟨hdirectory, reopened, hreopen, hagain⟩ :=
    Project.exists_open?_of_undisturbed hspares hwf hconsulted hroot hopen
  obtain ⟨hordered, hpath⟩ := Project.lists_document hdocument
  rw [Project.root_of_open? hwf hroot hopen] at hpath
  have hload :=
    Document.load_of_written hordered hdepth (Disk.read_of_write hwf hmade hwrite)
  have hsame : Config.load written.disk root settings = .ok config := by
    rw [Project.load_of_undisturbed hspares hconsulted, hconfig]
  -- Both commands come to deliver one and the same graph.
  have hsource : run (.graph { options with config := settings, source := some file }) written =
      (options.deliver (Graph.onDisk config written.disk document)).outcome written := by
    rw [run_graph]
    exact GraphOptions.outcome_run_of_load rfl hload hpath hdirectory hsame hreopen
  have hdirect : run (.graph { options with path, config := settings, source := none }) written =
      (options.deliver (Graph.onDisk config written.disk document)).outcome written := by
    rw [run_graph]
    exact GraphOptions.outcome_run_of_document rfl (Project.canonical_of_spares hspares hroot)
      hsame hreopen (hagain.trans hdocument)
  refine ⟨hsource.trans hdirect.symm, fun houtput => ?_⟩
  rw [hsource, GraphOptions.outcome_deliver_of_output_eq_none houtput]
  exact ⟨rfl, rfl⟩

/-! ### A small project -/

/-- A disk with one project, in which commands are run. -/
def projectDisk (entries : List (List Char × FileTree)) : Disk where
  root := .directory [("project".toList, .directory entries)]
  workingDirectory := ["project".toList]

/-- The project on that disk, with the default settings. -/
def openedProject (rules : Option ByteArray) (entries : List (List Char × FileTree)) : Project :=
  ⟨"/project".toList, entries, {}, rules⟩

theorem canonical_projectDisk (entries : List (List Char × FileTree)) :
    (projectDisk entries).canonical ['.'] = .ok "/project".toList := by cbv

theorem open?_projectDisk {rules : Option ByteArray} {entries : List (List Char × FileTree)}
    (h : Project.ignoreFile? (projectDisk entries) "/project".toList {} = rules) :
    Project.open? (projectDisk entries) "/project".toList {} =
      .ok (openedProject rules entries) := by
  subst h
  exact Project.open?_eq_ok_iff.2 ⟨["project".toList], entries, by cbv, rfl, rfl⟩

theorem mem_consulted {path : List Char}
    (h : path ∈ Project.consulted "/project".toList {} none) :
    path = "/project/codedoc.yaml".toList ∨ path = "/project/.codedoc.yaml".toList ∨
      path = "/project/.gitignore".toList := by
  have hconsulted : Project.consulted "/project".toList {} none =
      ["/project/codedoc.yaml".toList, "/project/.codedoc.yaml".toList,
        "/project/.gitignore".toList] := by decide +kernel
  simpa only [hconsulted, List.mem_cons, List.not_mem_nil, or_false] using h

/-- The path of a document in a directory that is not there yet. -/
def samplePath : List Char := "sub/doc.yaml".toList

/-- Where the document is then. -/
def samplePlace : List (List Char) := ["project".toList, "sub".toList, "doc.yaml".toList]

/-- What a small project holds, with a given ignore file. -/
def sample (ignore : FileTree) (more : List (List Char × FileTree)) :
    List (List Char × FileTree) :=
  [(".gitignore".toList, ignore), ("a.ts".toList, .file "import './b.ts';\n".toUTF8),
    ("b.ts".toList, .file "".toUTF8), ("rules".toList, .file "*.ts\n".toUTF8)] ++ more

/-- What is added when a file is written to the path of the document. -/
def filed (content : ByteArray) : List Char × FileTree :=
  ("sub".toList, .directory [("doc.yaml".toList, .file content)])

section Sample

variable (ignore : FileTree) (content : ByteArray)

theorem load_sample :
    Config.load (projectDisk (sample ignore [])) "/project".toList none = .ok {} :=
  Config.load_of_discover?_eq_none (by cbv)

theorem prepare_sample : (projectDisk (sample ignore [])).prepare samplePath =
    (projectDisk (sample ignore [("sub".toList, .directory [])]), none) := by cbv

theorem write_sample :
    (projectDisk (sample ignore [("sub".toList, .directory [])])).write samplePath content =
      .ok (projectDisk (sample ignore [filed content])) := by cbv

theorem locate_filed :
    (projectDisk (sample ignore [filed content])).locate samplePath = .ok samplePlace := by cbv

theorem locate_settings_filed {path : List Char}
    (h : path = "/project/codedoc.yaml".toList ∨ path = "/project/.codedoc.yaml".toList) :
    (projectDisk (sample ignore [filed content])).locate path = .error .notFound := by
  rcases h with rfl | rfl
  · cbv
  · cbv

end Sample

/-- An ignore file that is a file. -/
def plainRules : FileTree := .file "*.log\n".toUTF8

theorem undisturbed_plainRules (content : ByteArray) :
    Project.Undisturbed (projectDisk (sample plainRules []))
      (projectDisk (sample plainRules [filed content])) samplePlace
      (Project.consulted "/project".toList {} none) := by
  have habsent : ∀ {path}, path = "/project/codedoc.yaml".toList ∨
      path = "/project/.codedoc.yaml".toList →
      (projectDisk (sample plainRules [filed content])).locate path ≠ .ok samplePlace ∧
        ((projectDisk (sample plainRules [filed content])).isFile path = true →
          (projectDisk (sample plainRules [])).isFile path = true) := by
    intro path h
    simp [Disk.isFile, Disk.node?, locate_settings_filed plainRules content h]
  intro path hpath
  rcases mem_consulted hpath with h | h | rfl
  · exact habsent (.inl h)
  · exact habsent (.inr h)
  · have hbefore : (projectDisk (sample plainRules [])).isFile "/project/.gitignore".toList =
        true := by cbv
    have hafter : (projectDisk (sample plainRules [filed content])).locate
        "/project/.gitignore".toList = .ok ["project".toList, ".gitignore".toList] := by cbv
    refine ⟨?_, fun _ => hbefore⟩
    rw [hafter]
    decide

/-- The document goes to a new directory, and the path beside it leads nowhere. -/
theorem run_graph_written_sample : ∃ (written : Session) (document : Document),
    (projectDisk (sample plainRules [])).root.WellFormed ∧
    run (.analyze { output := some samplePath }) { disk := projectDisk (sample plainRules []) } =
      (.ok success, written) ∧
    document.value.depth ≤ Yaml.Decode.maxDepth ∧
    written.disk.locate samplePath = .ok samplePlace ∧
    ({} : Config).allows (samplePlace.getLastD []) = false ∧
    Project.Undisturbed (projectDisk (sample plainRules [])) written.disk samplePlace
      (Project.consulted "/project".toList {} none) ∧
    run (.graph { path := "lost".toList, source := some samplePath, pretty := true }) written =
      run (.graph { pretty := true }) written := by
  have hwf : (projectDisk (sample plainRules [])).root.WellFormed := by decide +kernel
  have hname : ({} : Config).allows (samplePlace.getLastD []) = false := by decide +kernel
  have hrules : Project.ignoreFile? (projectDisk (sample plainRules [])) "/project".toList {} =
      some "*.log\n".toUTF8 := by cbv
  have hany : (openedProject (some "*.log\n".toUTF8) (sample plainRules [])).document.toOption.any
      (fun document => decide (document.value.depth ≤ Yaml.Decode.maxDepth)) = true := by
    decide +kernel
  obtain ⟨document, hdocument, hdecide⟩ := Project.exists_document_of_any hany
  have hdepth := of_decide_eq_true hdecide
  have hroot := canonical_projectDisk (sample plainRules [])
  have hconfig := load_sample plainRules
  have hopen := open?_projectDisk hrules
  obtain ⟨written, hdisk, hanalyze⟩ := exists_run_analyze hroot hconfig hopen hdocument
    (prepare_sample plainRules) (write_sample plainRules document.toYaml.toUTF8)
  have hplace := locate_filed plainRules document.toYaml.toUTF8
  have hconsulted := undisturbed_plainRules document.toYaml.toUTF8
  rw [← hdisk] at hplace hconsulted
  refine ⟨written, document, hwf, hanalyze, hdepth, hplace, hname, hconsulted, ?_⟩
  exact (run_graph_written hwf hanalyze hroot hconfig hopen hdocument hdepth hplace hname hconsulted
    { path := "lost".toList, pretty := true }).1

/-! ### Graphs that differ -/

/-- Whether the graph of a document that is written to a path differs from the graph of the project
in the working directory, although the path has no allowed extension, leads to nothing before, and
is none of those that are consulted. -/
def GraphsDiffer (disk : Disk) (file : List Char) : Prop :=
  ∃ (root : List Char) (config : Config) (written : Session),
    disk.root.WellFormed ∧
    disk.canonical ['.'] = .ok root ∧
    Config.load disk root none = .ok config ∧
    config.allows file = false ∧
    disk.contains file = false ∧
    run (.analyze { output := some file }) { disk } = (.ok success, written) ∧
    (∀ path ∈ Project.consulted root config none,
      written.disk.locate path ≠ written.disk.locate file) ∧
    (run (.graph { source := some file }) written).1 = .ok success ∧
    (run (.graph {}) written).1 = .ok success ∧
    (run (.graph { source := some file }) written).2.stdout ≠
      (run (.graph {}) written).2.stdout

/-- Two graphs differ if their texts do. -/
theorem graphsDiffer_of_render {disk made written : Disk} {root file : List Char}
    {config : Config} {project reopened : Project} {document listed : Document}
    (hwf : disk.root.WellFormed) (hroot : disk.canonical ['.'] = .ok root)
    (hconfig : Config.load disk root none = .ok config)
    (hopen : Project.open? disk root config = .ok project)
    (hdocument : project.document = .ok document)
    (hdepth : document.value.depth ≤ Yaml.Decode.maxDepth)
    (hallows : config.allows file = false) (hnew : disk.contains file = false)
    (hmade : disk.prepare file = (made, none))
    (hwrite : made.write file document.toYaml.toUTF8 = .ok written)
    (hconsulted : ∀ path ∈ Project.consulted root config none,
      written.locate path ≠ written.locate file)
    (hroot' : written.canonical ['.'] = .ok root)
    (hconfig' : Config.load written root none = .ok config)
    (hreopen : Project.open? written root config = .ok reopened)
    (hlisted : reopened.document = .ok listed)
    (hne : (Graph.onDisk config written document).render false ≠
      (Graph.onDisk config written listed).render false) :
    GraphsDiffer disk file := by
  obtain ⟨hordered, hpath⟩ := Project.lists_document hdocument
  rw [Project.root_of_open? hwf hroot hopen] at hpath
  have hload :=
    Document.load_of_written hordered hdepth (Disk.read_of_write hwf hmade hwrite)
  obtain ⟨top, entries, hlocate, hget, -⟩ := Project.open?_eq_ok_iff.1 hreopen
  have hdirectory := Disk.isDirectory_of_locate hlocate hget
  obtain ⟨last, rfl, hanalyze⟩ :=
    exists_run_analyze hroot hconfig hopen hdocument hmade hwrite
  have hsource : run (.graph { source := some file }) last = _ :=
    (GraphOptions.outcome_run_of_load rfl hload hpath hdirectory hconfig' hreopen).trans
      (GraphOptions.outcome_deliver_of_output_eq_none rfl _ _)
  have hdirect : run (.graph {}) last = _ :=
    (GraphOptions.outcome_run_of_document rfl hroot' hconfig' hreopen hlisted).trans
      (GraphOptions.outcome_deliver_of_output_eq_none rfl _ _)
  refine ⟨root, config, last, hwf, hroot, hconfig, hallows, hnew, hanalyze, hconsulted, ?_, ?_, ?_⟩
  · rw [hsource]
  · rw [hdirect]
  · rw [hsource, hdirect]
    intro heq
    exact hne ((String.append_left_inj _).1 ((String.append_right_inj _).1 heq))

/-- An ignore file that is a link through a directory and back. -/
def detour : FileTree := .link "sub/../rules".toList

theorem locate_ne_detour (content : ByteArray) {path : List Char}
    (h : path ∈ Project.consulted "/project".toList {} none) :
    (projectDisk (sample detour [filed content])).locate path ≠
      (projectDisk (sample detour [filed content])).locate samplePath := by
  rw [locate_filed]
  rcases mem_consulted h with h | h | rfl
  · rw [locate_settings_filed detour content (.inl h)]
    exact nofun
  · rw [locate_settings_filed detour content (.inr h)]
    exact nofun
  · have hrules : (projectDisk (sample detour [filed content])).locate
        "/project/.gitignore".toList = .ok ["project".toList, "rules".toList] := by cbv
    rw [hrules]
    decide

theorem load_filed_detour (content : ByteArray) :
    Config.load (projectDisk (sample detour [filed content])) "/project".toList none = .ok {} :=
  Config.load_of_discover?_eq_none (by cbv)

theorem open?_filed_detour (content : ByteArray) :
    Project.open? (projectDisk (sample detour [filed content])) "/project".toList {} =
      .ok (openedProject (some "*.ts\n".toUTF8) (sample detour [filed content])) :=
  open?_projectDisk (by cbv)

/-- The directory that is made for the document opens the way to the ignore file, which then leaves
out all that the document lists. -/
theorem graphsDiffer_detour : GraphsDiffer (projectDisk (sample detour [])) samplePath := by
  -- Two documents cannot be compared by deciding, but the texts of their graphs can.
  have hany : (openedProject none (sample detour [])).document.toOption.any (fun document =>
      (openedProject (some "*.ts\n".toUTF8)
        (sample detour [filed document.toYaml.toUTF8])).document.toOption.any fun listed =>
          decide (document.value.depth ≤ Yaml.Decode.maxDepth ∧
            (Graph.onDisk {} (projectDisk (sample detour [filed document.toYaml.toUTF8]))
              document).render false ≠
            (Graph.onDisk {} (projectDisk (sample detour [filed document.toYaml.toUTF8]))
              listed).render false)) = true := by
    decide +kernel
  obtain ⟨document, listed, hdocument, hlisted, hrest⟩ := Project.exists_documents_of_any hany
  obtain ⟨hdepth, hne⟩ := of_decide_eq_true hrest
  have hwf : (projectDisk (sample detour [])).root.WellFormed := by decide +kernel
  have hallows : ({} : Config).allows samplePath = false := by decide +kernel
  have hnew : (projectDisk (sample detour [])).contains samplePath = false := by cbv
  exact graphsDiffer_of_render hwf (canonical_projectDisk _) (load_sample detour)
    (open?_projectDisk (by cbv)) hdocument hdepth hallows hnew (prepare_sample detour)
    (write_sample detour _) (fun path => locate_ne_detour _) (canonical_projectDisk _)
    (load_filed_detour _) (open?_filed_detour _) hlisted hne

/-- What a project holds that has a link which leads nowhere yet. -/
def linked (more : List (List Char × FileTree)) : List (List Char × FileTree) :=
  more ++ [("doc".toList, .link "c.ts".toList)]

/-- What is added when a file is written to the link. -/
def linkTarget (content : ByteArray) : List Char × FileTree := ("c.ts".toList, .file content)

section Linked

variable (content : ByteArray)

theorem prepare_linked :
    (projectDisk (linked [])).prepare "doc".toList = (projectDisk (linked []), none) := by cbv

theorem write_linked : (projectDisk (linked [])).write "doc".toList content =
    .ok (projectDisk (linked [linkTarget content])) := by cbv

theorem locate_ne_linked {path : List Char}
    (h : path ∈ Project.consulted "/project".toList {} none) :
    (projectDisk (linked [linkTarget content])).locate path ≠
      (projectDisk (linked [linkTarget content])).locate "doc".toList := by
  have hplace : (projectDisk (linked [linkTarget content])).locate "doc".toList =
      .ok ["project".toList, "c.ts".toList] := by cbv
  have habsent : (projectDisk (linked [linkTarget content])).locate path = .error .notFound := by
    rcases mem_consulted h with rfl | rfl | rfl
    · cbv
    · cbv
    · cbv
  rw [hplace, habsent]
  intro heq
  cases heq

theorem load_linked : Config.load (projectDisk (linked [])) "/project".toList none = .ok {} :=
  Config.load_of_discover?_eq_none (by cbv)

theorem load_linkTarget :
    Config.load (projectDisk (linked [linkTarget content])) "/project".toList none = .ok {} :=
  Config.load_of_discover?_eq_none (by cbv)

theorem open?_linkTarget :
    Project.open? (projectDisk (linked [linkTarget content])) "/project".toList {} =
      .ok (openedProject none (linked [linkTarget content])) :=
  open?_projectDisk (by cbv)

end Linked

/-- The document is written to the place where a link leads, and becomes a source file there. -/
theorem graphsDiffer_linked : GraphsDiffer (projectDisk (linked [])) "doc".toList := by
  have hany : (openedProject none (linked [])).document.toOption.any (fun document =>
      (openedProject none
        (linked [linkTarget document.toYaml.toUTF8])).document.toOption.any fun listed =>
          decide (document.value.depth ≤ Yaml.Decode.maxDepth ∧
            (Graph.onDisk {} (projectDisk (linked [linkTarget document.toYaml.toUTF8]))
              document).render false ≠
            (Graph.onDisk {} (projectDisk (linked [linkTarget document.toYaml.toUTF8]))
              listed).render false)) = true := by
    decide +kernel
  obtain ⟨document, listed, hdocument, hlisted, hrest⟩ := Project.exists_documents_of_any hany
  obtain ⟨hdepth, hne⟩ := of_decide_eq_true hrest
  have hwf : (projectDisk (linked [])).root.WellFormed := by decide +kernel
  have hallows : ({} : Config).allows "doc".toList = false := by decide +kernel
  have hnew : (projectDisk (linked [])).contains "doc".toList = false := by cbv
  exact graphsDiffer_of_render hwf (canonical_projectDisk _) load_linked
    (open?_projectDisk (by cbv)) hdocument hdepth hallows hnew prepare_linked (write_linked _)
    (fun path => locate_ne_linked _) (canonical_projectDisk _) (load_linkTarget _)
    (open?_linkTarget _) hlisted hne

/-- **A document that is neither a source file nor consulted may still change the graph**, by a
directory that is made for it or by a link that its path ends in. -/
theorem graphsDiffer_detour_linked :
    GraphsDiffer (projectDisk (sample detour [])) samplePath ∧
      GraphsDiffer (projectDisk (linked [])) "doc".toList :=
  ⟨graphsDiffer_detour, graphsDiffer_linked⟩

end Command

end SourceAtlas
