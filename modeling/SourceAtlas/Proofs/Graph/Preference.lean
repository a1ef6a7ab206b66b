import SourceAtlas.Proofs.Graph.OnePass

/-!
# Which extension an import gets

An import without an extension is tried with the configured ones in their order. While the document
is visited only the places up to the importing file are known, so a candidate that has been visited
wins over a preferred one that has not; the order of the extensions decides alone only among the
candidates visited so far and, if there is none, among all. `dependencies_by_preference` says so for
graphs without a disk, and `interleavedImports` is a document in which two files with the same import
get different targets.
-/

namespace SourceAtlas

namespace Resolution

/-- The number of the first place at a path, if it does not come after a given number. -/
def nodeUpTo? (places : List Place) (last : Nat) (path : List Char) : Option Nat :=
  (nodeAt? places path).filter (· ≤ last)

section Distinct

variable {places : List Place}

/-- When a place is visited, the nodes of the paths up to it are known. -/
theorem DistinctPaths.find?_take_eq_nodeUpTo? (hdistinct : DistinctPaths places)
    {path : List Char} (hpath : path ≠ []) (last : Nat) :
    find? (table (places.take (last + 1))) (String.ofList path) = nodeUpTo? places last path := by
  have hfull := hdistinct.find?_eq_nodeAt? hpath
  ext id
  rw [nodeUpTo?, Option.filter_eq_some_iff, ← hfull, decide_eq_true_eq]
  constructor
  · intro h
    obtain ⟨place, hplace, -⟩ := find?_table_eq_some h
    have hlt : id < last + 1 :=
      (List.getElem?_eq_some_iff.1 hplace).1.trans_le (List.length_take_le ..)
    exact ⟨hdistinct.find?_of_take h, by omega⟩
  · rintro ⟨h, hle⟩
    -- the place at the path is among the first ones, and no other place is at the path
    obtain ⟨hne, place, hplace, hat⟩ := mem_table.1 (mem_of_find?_eq_some h)
    have htake : (places.take (last + 1))[id]? = some place := by
      rwa [List.getElem?_take_of_lt (by omega)]
    obtain ⟨other, hother⟩ := Option.isSome_iff_exists.1
      (isSome_find?_iff.2 ⟨id, mem_table.2 ⟨hne, place, htake, hat⟩⟩)
    have hsame := hdistinct.find?_of_take hother
    rw [h, Option.some.injEq] at hsame
    rw [hother, hsame]

theorem findSome?_eq_of_find? {α β : Type} {f : α → Option β} {l : List α} {a : α}
    (h : l.find? (fun a => (f a).isSome) = some a) : l.findSome? f = f a := by
  obtain ⟨hsome, before, after, rfl, hbefore⟩ := List.find?_eq_some_iff_append.1 h
  have hnone : before.findSome? f = none :=
    List.findSome?_eq_none_iff.2 fun b hb => by simpa using hbefore b hb
  obtain ⟨value, hvalue⟩ := Option.isSome_iff_exists.1 hsome
  rw [List.findSome?_append, hnone, Option.none_or, List.findSome?_cons, hvalue]

/-- Without a disk, a candidate without an extension and without a node leads to its first extension
among the places visited so far or, if there is none, among all places. -/
theorem settled?_eq_preference (hdistinct : DistinctPaths places) {config : Config}
    {path : List Char} (hpath : path ≠ []) (hallows : config.allows path = false)
    (hnode : nodeAt? places path = none) (last : Nat) :
    settled? { config } places (last + 1) path =
      ((extended config path).findSome? (nodeUpTo? places last)).or
        ((extended config path).findSome? (nodeAt? places)) := by
  have hknown : ∀ p ∈ extended config path,
      isKnown { config } (table (places.take (last + 1))) p =
        (nodeUpTo? places last p).isSome := by
    intro p hp
    rw [isKnown_without_disk,
      hdistinct.find?_take_eq_nodeUpTo? (ne_nil_of_mem_extended hpath hp)]
  rw [settled?, probe, hallows, if_neg Bool.false_ne_true, List.find?_congr hknown]
  cases hfind : (extended config path).find? fun p => (nodeUpTo? places last p).isSome with
  | none =>
    -- nothing has been visited, and the candidate itself is no node
    have hnone : (extended config path).findSome? (nodeUpTo? places last) = none := by
      rw [List.findSome?_eq_none_iff]
      intro p hp
      simpa using List.find?_eq_none.1 hfind p hp
    have hself : nodeUpTo? places last path = none := by rw [nodeUpTo?, hnode, Option.filter_none]
    rw [hnone, Option.none_or, Option.getD_none, hdistinct.find?_take_eq_nodeUpTo? hpath, hself,
      Option.none_or, hdistinct.match?_eq hpath, hnode, Option.none_or]
  | some p =>
    have hp := ne_nil_of_mem_extended hpath (List.mem_of_find?_eq_some hfind)
    have hsome : (nodeUpTo? places last p).isSome = true := by simpa using List.find?_some hfind
    obtain ⟨id, hid⟩ := Option.isSome_iff_exists.1 hsome
    rw [findSome?_eq_of_find? hfind, Option.getD_some, hdistinct.find?_take_eq_nodeUpTo? hp, hid,
      Option.some_or, Option.some_or]

end Distinct

end Resolution

open Resolution

/-- **Visited candidates first, then the order of the extensions.** Without a disk, and if the
recorded paths are distinct, an import that names a path without an extension and without a node
leads to the first extension of this path, in the configured order, that has a node no later than
the importing file. If there is none it leads to the first extension with any node, and if there is
none of these it has no link. Nodes are numbered like places. -/
theorem dependencies_by_preference (config : Config) (document : Document)
    (hdistinct : DistinctPaths document.places) :
    (Graph.ofDocument { config } document).nodes =
        document.places.mapIdx (fun id place => place.item.node id place.steps.length) ∧
      ∃ target : ImportEntry → Option Nat,
        (Graph.ofDocument { config } document).dependencies =
          document.imports.filterMap
            (fun entry => (target entry).map (GraphLink.resolved entry.source)) ∧
        ∀ entry ∈ document.imports, ∀ path,
          candidate? config entry.importer.toList entry.specifier.toList = some path →
          config.allows path = false → nodeAt? document.places path = none →
            target entry =
              ((extended config path).findSome? (nodeUpTo? document.places entry.source)).or
                ((extended config path).findSome? (nodeAt? document.places)) := by
  refine ⟨nodes_ofDocument _ _, target? { config } document.places, dependencies_ofDocument _ _, ?_⟩
  intro entry _ path hpath hallows hnode
  rw [target?_eq_bind_settled?, hpath, Option.bind_some]
  exact settled?_eq_preference hdistinct (candidate?_ne_nil hpath) hallows hnode entry.source

/-- A document in which two files import `button`, which is there with two extensions. When the
first of them is visited neither is known, and when the second one is visited the preferred one is
not known yet. -/
def interleavedImports : Document :=
  { root :=
      { name := "app"
        files := [{ name := "button.js", path := "button.js" },
                  { name := "button.main.ts", path := "button.main.ts"
                    internalImports := ["./button"] },
                  { name := "button.tsx", path := "button.tsx" }]
        directories := [("start",
          { name := "start"
            files := [{ name := "run.ts", path := "start/run.ts"
                        internalImports := ["../button"] }] })] } }

/-- The imports of the two files name the same path, but lead to different nodes. -/
theorem dependencies_interleavedImports :
    DistinctPaths interleavedImports.places ∧
      (Graph.ofDocument { config := {} } interleavedImports).dependencies =
        [.resolved 2 5, .resolved 4 3] := by
  have hdistinct : DistinctPaths interleavedImports.places := by decide +kernel
  have himports : interleavedImports.imports =
      [⟨2, "start/run.ts", "../button"⟩, ⟨4, "button.main.ts", "./button"⟩] := by decide +kernel
  refine ⟨hdistinct, ?_⟩
  obtain ⟨-, target, hdependencies, htarget⟩ :=
    dependencies_by_preference {} interleavedImports hdistinct
  rw [himports] at hdependencies htarget
  have hrun : target ⟨2, "start/run.ts", "../button"⟩ = some 5 := by
    rw [htarget _ (by simp) "button".toList (by decide +kernel) (by decide +kernel)
      (by decide +kernel)]
    decide +kernel
  have hmain : target ⟨4, "button.main.ts", "./button"⟩ = some 3 := by
    rw [htarget _ (by simp) "button".toList (by decide +kernel) (by decide +kernel)
      (by decide +kernel)]
    decide +kernel
  simp [hdependencies, hrun, hmain]

/-- The order of the extensions does not always decide: an import leads to `button.js` though
`button.tsx`, whose extension is preferred, has a node too. -/
theorem exists_target_not_preferred :
    DistinctPaths interleavedImports.places ∧
      ∃ entry ∈ interleavedImports.imports,
        candidate? {} entry.importer.toList entry.specifier.toList = some "button".toList ∧
        ({} : Config).allows "button".toList = false ∧
        nodeAt? interleavedImports.places "button".toList = none ∧
        (extended {} "button".toList).findSome? (nodeAt? interleavedImports.places) = some 5 ∧
        ((Graph.ofDocument { config := {} } interleavedImports).dependencies.filter
          fun link => link.source = entry.source) = [.resolved entry.source 3] := by
  refine ⟨by decide +kernel, ⟨4, "button.main.ts", "./button"⟩, by decide +kernel, ?_⟩
  decide +kernel

end SourceAtlas
