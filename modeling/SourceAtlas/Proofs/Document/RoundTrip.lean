import SourceAtlas.Document.File
import SourceAtlas.Proofs.Graph.Hierarchy
import SourceAtlas.Proofs.Yaml.Records

/-!
# Documents survive their texts

A document whose directories are kept in order and whose text nests no deeper than a reader follows
is read back from its text, whatever characters its names, paths, descriptions and imports hold.
-/

namespace SourceAtlas

open Yaml Decode Value

/-! ### Entries of files -/

theorem Parameter.decode_toYaml (p : Parameter) {depth : Nat} (h : p.toYaml.depth ≤ depth) :
    Parameter.decode depth p.toYaml.node = pure p := by
  obtain ⟨found, below, rfl, hfields, hfinds⟩ := exists_fields
    (show p.toYaml = ofFields _ from rfl) (by simp) h
  rw [Parameter.decode, hfields, pure_bind]
  simp [hfinds.required_string "name" p.name (by simp),
    hfinds.optional_string "type" p.type (by simp),
    hfinds.optional_string "description" p.description (by simp)]

theorem Returned.decode_toYaml (r : Returned) {depth : Nat} (h : r.toYaml.depth ≤ depth) :
    Returned.decode depth r.toYaml.node = pure r := by
  obtain ⟨found, below, rfl, hfields, hfinds⟩ := exists_fields
    (show r.toYaml = ofFields _ from rfl) (by simp) h
  rw [Returned.decode, hfields, pure_bind]
  simp [hfinds.optional_string "type" r.type (by simp),
    hfinds.optional_string "description" r.description (by simp)]

/-- A returned value is written as a mapping, so it is not taken for a missing one. -/
theorem Returned.decode?_toYaml (r : Returned) {depth : Nat} (h : r.toYaml.depth ≤ depth) :
    Returned.decode? depth r.toYaml.node = pure (some r) := by
  rw [Returned.decode?, target_node, pure_bind]
  show (Returned.decode depth r.toYaml.node >>= fun found => pure (some found)) = _
  rw [Returned.decode_toYaml r h, pure_bind]

theorem FunctionEntry.decode_toYaml (f : FunctionEntry) {depth : Nat}
    (h : f.toYaml.depth ≤ depth) : FunctionEntry.decode depth f.toYaml.node = pure f := by
  obtain ⟨found, below, rfl, hfields, hfinds⟩ := exists_fields
    (show f.toYaml = ofFields _ from rfl) (by simp) h
  have hreturns : Decode.optional found "returns" none (Returned.decode? below) =
      pure f.returns := by
    refine hfinds.optional_value "returns" (f.returns.map Returned.toYaml) (by simp) ?_ ?_
    · intro hnone
      exact (Option.map_eq_none_iff.1 hnone).symm
    · intro v hv hdepth
      obtain ⟨r, hr, rfl⟩ := Option.map_eq_some_iff.1 hv
      rw [hr]
      exact Returned.decode?_toYaml r hdepth
  rw [FunctionEntry.decode, hfields, pure_bind]
  simp [hfinds.required_string "name" f.name (by simp),
    hfinds.optional_string "description" f.description (by simp),
    hfinds.optional_list "params" _ f.params (by simp) fun p _ _ => Parameter.decode_toYaml p, hreturns]

theorem FileEntry.decode_toYaml (f : FileEntry) {depth : Nat} (h : f.toYaml.depth ≤ depth) :
    FileEntry.decode depth f.toYaml.node = pure f := by
  obtain ⟨found, below, rfl, hfields, hfinds⟩ := exists_fields
    (show f.toYaml = ofFields _ from rfl) (by simp) h
  have hexternal : Decode.optional found "externalImports" [] (list stringItem below) =
      pure f.externalImports :=
    hfinds.optional_list "externalImports" _ f.externalImports (by simp) fun s _ _ _ => string_ofString s
  have hinternal : Decode.optional found "internalImports" [] (list stringItem below) =
      pure f.internalImports :=
    hfinds.optional_list "internalImports" _ f.internalImports (by simp) fun s _ _ _ => string_ofString s
  have hfunctions : Decode.optional found "functions" [] (list FunctionEntry.decode below) =
      pure f.functions :=
    hfinds.optional_list "functions" _ f.functions (by simp) fun g _ _ => FunctionEntry.decode_toYaml g
  rw [FileEntry.decode, hfields, pure_bind]
  simp [hfinds.required_string "name" f.name (by simp),
    hfinds.required_string "path" f.path (by simp),
    hfinds.optional_string "fileDescription" f.description (by simp), hexternal, hinternal,
    hfunctions]

/-! ### Directories -/

namespace Directory

/-- A key behind all others is added at the end. -/
theorem alter_of_lt (key : String) (change : Option Directory → Directory)
    {found : List (String × Directory)} (h : ∀ entry ∈ found, entry.1 < key) :
    alter key change found = found ++ [(key, change none)] := by
  induction found with
  | nil => rfl
  | cons entry found ih =>
    have hentry := h entry (by simp)
    rw [alter, if_neg (String.lt_asymm hentry), if_neg (String.ne_of_lt hentry).symm,
      ih fun other hother => h other (by simp [hother])]
    rfl

theorem foldl_alter {entries found : List (String × Directory)}
    (hentries : (entries.map Prod.fst).Pairwise (· < ·))
    (hfound : ∀ old ∈ found, ∀ new ∈ entries, old.1 < new.1) :
    entries.foldl (fun found (name, child) => alter name (fun _ => child) found) found =
      found ++ entries := by
  induction entries generalizing found with
  | nil => simp
  | cons entry entries ih =>
    obtain ⟨name, child⟩ := entry
    rw [List.map_cons, List.pairwise_cons] at hentries
    rw [List.foldl_cons]
    show entries.foldl _ (alter name (fun _ => child) found) = _
    rw [alter_of_lt _ _ fun old hold => hfound old hold (name, child) (by simp), ih hentries.2,
      List.append_assoc]
    · rfl
    · intro old hold new hnew
      rcases List.mem_append.1 hold with hold | hold
      · exact hfound old hold new (by simp [hnew])
      · rw [List.mem_singleton.1 hold]
        exact hentries.1 _ (List.mem_map_of_mem hnew)

/-- Directories in order are kept as they are. -/
theorem ofEntries_of_pairwise {entries : List (String × Directory)}
    (h : (entries.map Prod.fst).Pairwise (· < ·)) : ofEntries entries = entries := by
  rw [ofEntries, foldl_alter h (by simp), List.nil_append]

mutual

/-- A directory is read back from its value. -/
theorem decode_toYaml : (directory : Directory) → directory.Ordered → ∀ {depth : Nat},
    directory.toYaml.depth ≤ depth → decode depth directory.toYaml.node = pure directory
  | ⟨name, path, files, directories⟩, hordered, depth, h => by
    obtain ⟨hsorted, hall⟩ := hordered
    obtain ⟨found, below, rfl, hfields, hfinds⟩ := exists_fields (toYaml.eq_1 ..) (by simp) h
    have hfiles : Decode.optional found "files" [] (list FileEntry.decode below) = pure files :=
      hfinds.optional_list "files" _ files (by simp) fun f _ _ => FileEntry.decode_toYaml f
    have hdirectories : Decode.optional found "directories" [] (decodeEntries below) =
        pure directories := by
      refine hfinds.optional_value "directories" _ (.tail _ (.tail _ (.tail _ (.head _)))) ?_ ?_
      · intro hnone
        cases directories with
        | nil => rfl
        | cons entry directories => cases hnone
      · intro v hv hdepth
        cases directories with
        | nil => cases hv
        | cons entry directories =>
          cases hv
          rw [Value.depth] at hdepth
          obtain ⟨inner, rfl⟩ := Nat.exists_eq_add_one_of_ne_zero (Nat.ne_zero_of_lt hdepth)
          have hchildren := mapM_entriesYaml (entry :: directories) hall
            (Nat.le_of_succ_le_succ hdepth)
          rw [decodeEntries, entries_node, pure_bind]
          show (List.mapM _ _ >>= _) = _
          rw [hchildren, pure_bind, ofEntries_of_pairwise hsorted]
    rw [decode, hfields, pure_bind]
    simp [hfinds.required_string "name" name (by simp),
      hfinds.optional_string "path" path (by simp), hfiles, hdirectories]

/-- Directories by name are read back from their values. -/
theorem mapM_entriesYaml {below : Nat} : (directories : List (String × Directory)) →
    OrderedAll directories → entriesDepth (entriesYaml directories) ≤ below →
    ((entryNodes (entriesYaml directories)).mapM fun (key, value) => do
      return (← string key, ← decode below value) : Decode (List (String × Directory))) =
      pure directories
  | [], _, _ => rfl
  | (key, child) :: rest, hordered, h => by
    rw [entriesYaml, entriesDepth, Nat.max_le] at h
    have hkey : string (.scalar none (styleOf key.toList) key.toList) = pure key :=
      string_ofString key
    have hchild := decode_toYaml child hordered.1 h.1
    have hrest := mapM_entriesYaml rest hordered.2 h.2
    rw [entriesYaml, entryNodes, List.mapM_cons, hrest]
    simp [hkey, hchild]

end

end Directory

/-! ### Documents -/

/-- The value that is written for a document. -/
def Document.value (document : Document) : Value :=
  .mapping [("root".toList, document.root.toYaml)]

theorem Document.decode_value {document : Document} (hordered : document.root.Ordered)
    (hdepth : document.value.depth ≤ maxDepth) :
    Document.decode document.value.node = pure document := by
  have hvalue : document.value = ofFields [("root", some document.root.toYaml)] := rfl
  obtain ⟨found, below, hbelow, hfields, hfinds⟩ := exists_fields hvalue (by simp) hdepth
  have hroot : required found "root" (Directory.decode below) = pure document.root :=
    hfinds.required_value "root" _ (.head _) fun h => Directory.decode_toYaml _ hordered h
  rw [Document.decode, hfields, pure_bind]
  simp [hroot]

/-- A file with the text of a document is loaded as that document. -/
theorem Document.load_of_read {document : Document} {text : String}
    (htext : Document.ofYaml? text = some document) {disk : Disk} {path : List Char}
    (hread : disk.read path = .ok text.toUTF8) : Document.load disk path = .ok document := by
  have hdecoded : String.fromUTF8? text.toUTF8 = some text := dif_pos text.isValidUTF8
  simp only [Document.load, Disk.readText, hread, hdecoded, htext]

/-- **Every document is read back from its text, and from every file that holds its text.** The
directories of a document are kept in order, each key once, and its text may nest collections as
deeply as the reader follows them. -/
theorem Document.ofYaml?_toYaml (document : Document) (hordered : document.root.Ordered)
    (hdepth : document.value.depth ≤ maxDepth) :
    Document.ofYaml? document.toYaml = some document ∧
      ∀ (disk : Disk) (path : List Char), disk.read path = .ok document.toYaml.toUTF8 →
        Document.load disk path = .ok document := by
  have htext : Document.ofYaml? document.toYaml = some document := by
    rw [Document.ofYaml?, Document.toYaml, String.toList_ofList]
    exact run?_of_entries (List.cons_ne_nil _ _) (Document.decode_value hordered hdepth)
  exact ⟨htext, fun disk path => Document.load_of_read htext⟩

/-- A document with texts that need every style: keys with marks and on several lines, texts that
look like other values, blanks at the ends, quotes and characters that cannot be printed. -/
def awkwardDocument : Document where
  root :=
    { name := "- root: #"
      path := some ""
      files :=
        [{ name := "null", path := " a\tb.ts ", description := some "first\n\n  second \n"
           externalImports := ["true", "0x1F", "it's", "\"\\\u0007\"", "~"]
           functions :=
            [{ name := "f", description := some "\n", params := [{ name := "", type := some "12" }]
               returns := some {} }] }]
      directories :=
        [("", { name := "? key" }),
          ("line\nline", { name := "\ufeffmark\u2028", directories := [("a: b", { name := "[]" })] }),
          ("ключ", { name := "|\n" })] }

theorem ofYaml?_toYaml_awkwardDocument :
    awkwardDocument.root.Ordered ∧ awkwardDocument.value.depth ≤ maxDepth ∧
      Document.ofYaml? awkwardDocument.toYaml = some awkwardDocument := by
  have hordered : awkwardDocument.root.Ordered := by
    simp only [awkwardDocument, Directory.Ordered, Directory.OrderedAll, and_true]
    decide
  have hdepth : awkwardDocument.value.depth ≤ maxDepth := by decide
  exact ⟨hordered, hdepth, (awkwardDocument.ofYaml?_toYaml hordered hdepth).1⟩

end SourceAtlas
