import SourceAtlas.Inventory.Functions
import SourceAtlas.Proofs.DocComment.Printing

/-!
# Which comment documents a function

A function is anchored at a statement, or at a member of a class, and is documented by a comment in
the run of comments directly in front of its anchor. A `Site` is a function with all the nodes in front
of its anchor, and `Site.ofItems` lists the sites of a file by their positions. The candidates of a
file are its sites, each with the run of comments that the nodes start with (`map_candidate_ofItems`).

Two tests decide which comment counts. The search stops at the first comment that opens like
documentation, and the reader of documentation refuses the block that closes right away. So the nearest
documentation is found (`nearestDoc?`), with whatever other comments in between, unless such an empty
block stands nearer: then there is none (`functionEntries_documented`).
-/

namespace SourceAtlas

open Text Syntax

/-- The block comment without a text, which opens like documentation. -/
def Comment.emptyBlock : List Char := ['/', '*', '*', '/']

/-! ### Sites -/

/-- The comment that an item is, if it is one. -/
def Syntax.Item.asComment? : Item → Option SourceComment
  | .comment found => some found
  | _ => none

/-- The comment that a member of a class is, if it is one. -/
def Syntax.Member.asComment? : Member → Option SourceComment
  | .comment found => some found
  | _ => none

/-- A function, perhaps without a name, with the nodes in front of its anchor, nearest first. Of the
nodes only the comments are told apart. -/
structure Site where
  group : FunctionGroup
  name : Option (List Char)
  above : List (Option SourceComment)

namespace Site

/-- The nodes in front of a position, nearest first. -/
def nodesAbove {α : Type} (asComment? : α → Option SourceComment) (nodes : List α) (i : Nat) :
    List (Option SourceComment) :=
  ((nodes.take i).map asComment?).reverse

/-- The site of a candidate whose anchor stands behind some nodes. -/
def ofCandidate (above : List (Option SourceComment)) (candidate : Candidate) : Site :=
  ⟨candidate.group, candidate.name, above⟩

/-- The methods of a class, each anchored at its own member. -/
def ofMembers (className : Option (List Char)) (members : List Member) : List Site :=
  members.zipIdx.flatMap fun found =>
    (Candidate.ofMembers className [] [found.1]).map
      (ofCandidate (nodesAbove Member.asComment? members found.2))

/-- The functions of a statement: methods are anchored in their class, all others here. -/
def ofItem (above : List (Option SourceComment)) (item : Item) : List Site :=
  match item.declaration with
  | .declared (.classOf name members) => ofMembers name members
  | declaration => (Candidate.ofDeclaration [] declaration).map (ofCandidate above)

/-- The functions of a file in source order. -/
def ofItems (items : List Item) : List Site :=
  items.zipIdx.flatMap fun found => ofItem (nodesAbove Item.asComment? items found.2) found.1

/-- The sites of each group, one group after the other. -/
def inGroups (sites : List Site) : List Site :=
  [.declared, .bound, .method].flatMap fun group => sites.filter fun site => site.group = group

/-- The entry of a function with the documentation that is found among the nodes above it. -/
def entryBy (doc? : List (Option SourceComment) → Option DocComment) (site : Site) :
    Option FunctionEntry :=
  (site.name.bind nonEmpty?).map fun name =>
    (doc? site.above).elim { name := String.ofList name } fun doc =>
      doc.document { name := String.ofList name }

/-! ### Documentation among the nodes above -/

/-- The texts of the comments up to the first node that is none. -/
def commentRun : List (Option SourceComment) → List (List Char)
  | some comment :: above => comment.text :: commentRun above
  | _ => []

/-- The documentation of the nearest comment that has some, if only comments stand in between. -/
def nearestDoc? : List (Option SourceComment) → Option DocComment
  | some comment :: above => (DocComment.parse? comment.text).or (nearestDoc? above)
  | _ => none

/-- Whether an empty block comes before any documentation. -/
def emptyBlockNearer : List (Option SourceComment) → Bool
  | some comment :: above =>
    Comment.emptyBlock.isPrefixOf comment.text ||
      ((DocComment.parse? comment.text).isNone && emptyBlockNearer above)
  | _ => false

/-- The nearest documentation, unless an empty block stands nearer. -/
def visibleDoc? (above : List (Option SourceComment)) : Option DocComment :=
  if emptyBlockNearer above then none else nearestDoc? above

/-- The candidate of a site. -/
def candidate (site : Site) : Candidate := ⟨site.group, site.name, commentRun site.above⟩

end Site

/-! ### The search and the reader -/

theorem DocComment.parse?_text_eq_none_iff (comment : SourceComment) :
    DocComment.parse? comment.text = none ↔ DocComment.isDoc comment.text = false := by
  have hhead : comment.text.head?.any isBlank = false := by cases comment <;> rfl
  have hprefix : ∀ pre : List Char, pre.getLast?.any isBlank = false →
      pre.isPrefixOf (trim comment.text) = pre.isPrefixOf comment.text := by
    intro pre hlast
    rw [Bool.eq_iff_iff, List.isPrefixOf_iff_prefix, List.isPrefixOf_iff_prefix,
      prefix_trim_iff hlast hhead]
  have htrim : isDoc (trim comment.text) = isDoc comment.text := by
    rw [isDoc, isDoc, hprefix _ (by decide), hprefix _ (by decide)]
  cases hdoc : isDoc comment.text with
  | false => simp [parse?, htrim, hdoc]
  | true => simp [parse?, htrim, hdoc]

namespace Site

/-- What the search and the reader make of a comment: it is passed over, or it is an empty block, where
the search ends although there is nothing to read, or it is documentation. -/
theorem comment_cases (comment : SourceComment) :
    Comment.docOpening.isPrefixOf comment.text = false ∧
        Comment.emptyBlock.isPrefixOf comment.text = false ∧
        DocComment.parse? comment.text = none ∨
      Comment.docOpening.isPrefixOf comment.text = true ∧
        Comment.emptyBlock.isPrefixOf comment.text = true ∧
        DocComment.parse? comment.text = none ∨
      Comment.docOpening.isPrefixOf comment.text = true ∧
        Comment.emptyBlock.isPrefixOf comment.text = false ∧
        ∃ doc, DocComment.parse? comment.text = some doc := by
  have hread := DocComment.parse?_text_eq_none_iff comment
  have hdoc : DocComment.isDoc comment.text = (Comment.docOpening.isPrefixOf comment.text &&
    !Comment.emptyBlock.isPrefixOf comment.text) := rfl
  cases hblock : Comment.emptyBlock.isPrefixOf comment.text with
  | true =>
    have hopening : Comment.docOpening.isPrefixOf comment.text = true := by
      rw [List.isPrefixOf_iff_prefix] at hblock ⊢
      exact (by decide : Comment.docOpening <+: Comment.emptyBlock).trans hblock
    rw [hdoc, hopening, hblock] at hread
    exact .inr (.inl ⟨hopening, rfl, hread.2 rfl⟩)
  | false =>
    cases hopening : Comment.docOpening.isPrefixOf comment.text with
    | false =>
      rw [hdoc, hopening] at hread
      exact .inl ⟨rfl, rfl, hread.2 rfl⟩
    | true =>
      rw [hdoc, hopening, hblock] at hread
      refine .inr (.inr ⟨rfl, rfl, Option.ne_none_iff_exists'.1 fun hnone => ?_⟩)
      exact absurd (hread.1 hnone) (by decide)

section Visible

variable {comment : SourceComment} {above : List (Option SourceComment)}

theorem visibleDoc?_of_skipped (hblock : Comment.emptyBlock.isPrefixOf comment.text = false)
    (hread : DocComment.parse? comment.text = none) :
    visibleDoc? (some comment :: above) = visibleDoc? above := by
  simp [visibleDoc?, emptyBlockNearer, nearestDoc?, hblock, hread]

theorem visibleDoc?_of_emptyBlock (hblock : Comment.emptyBlock.isPrefixOf comment.text = true) :
    visibleDoc? (some comment :: above) = none := by
  simp [visibleDoc?, emptyBlockNearer, hblock]

theorem visibleDoc?_of_parse? {doc : DocComment}
    (hblock : Comment.emptyBlock.isPrefixOf comment.text = false)
    (hread : DocComment.parse? comment.text = some doc) :
    visibleDoc? (some comment :: above) = some doc := by
  simp [visibleDoc?, emptyBlockNearer, nearestDoc?, hblock, hread]

/-- The search and the reader together find the nearest documentation that is visible. -/
theorem docComment?_commentRun (above : List (Option SourceComment)) :
    (Candidate.docComment? (commentRun above)).bind DocComment.parse? = visibleDoc? above := by
  induction above with
  | nil => rfl
  | cons node above ih =>
    cases node with
    | none => rfl
    | some comment =>
      rw [commentRun, Candidate.docComment?, List.find?_cons]
      rcases comment_cases comment with ⟨hopening, hblock, hread⟩ | ⟨hopening, hblock, hread⟩ |
        ⟨hopening, hblock, doc, hread⟩
      · rw [hopening, visibleDoc?_of_skipped hblock hread]
        exact ih
      · rw [hopening, visibleDoc?_of_emptyBlock hblock]
        exact hread
      · rw [hopening, visibleDoc?_of_parse? hblock hread]
        exact hread

/-- A comment that is neither documentation nor an empty block does not matter, wherever it stands. -/
theorem visibleDoc?_insert (hblock : Comment.emptyBlock.isPrefixOf comment.text = false)
    (hread : DocComment.parse? comment.text = none) (nearer farther : List (Option SourceComment)) :
    visibleDoc? (nearer ++ some comment :: farther) = visibleDoc? (nearer ++ farther) := by
  induction nearer with
  | nil => exact visibleDoc?_of_skipped hblock hread
  | cons node nearer ih =>
    cases node with
    | none => rfl
    | some other =>
      rw [List.cons_append, List.cons_append]
      rcases comment_cases other with ⟨-, hother, hnone⟩ | ⟨-, hother, -⟩ | ⟨-, hother, doc, hsome⟩
      · rw [visibleDoc?_of_skipped hother hnone, visibleDoc?_of_skipped hother hnone, ih]
      · rw [visibleDoc?_of_emptyBlock hother, visibleDoc?_of_emptyBlock hother]
      · rw [visibleDoc?_of_parse? hother hsome, visibleDoc?_of_parse? hother hsome]

end Visible

/-! ### Positions -/

section Positions

variable {α β : Type} (asComment? : α → Option SourceComment)
  (f : List (Option SourceComment) → α → List β)

/-- What is found at each node, given the nodes above the first one. -/
def walk (above : List (Option SourceComment)) : List α → List β
  | [] => []
  | node :: nodes => f above node ++ walk (asComment? node :: above) nodes

theorem nodesAbove_succ (node : α) (nodes : List α) (i : Nat) :
    nodesAbove asComment? (node :: nodes) (i + 1) =
      nodesAbove asComment? nodes i ++ [asComment? node] := by
  simp [nodesAbove]

/-- Walking over the nodes is the same as visiting their positions. -/
theorem walk_eq_flatMap (above : List (Option SourceComment)) (nodes : List α) :
    walk asComment? f above nodes =
      nodes.zipIdx.flatMap fun found => f (nodesAbove asComment? nodes found.2 ++ above) found.1 := by
  induction nodes generalizing above with
  | nil => rfl
  | cons node nodes ih =>
    have hshift : nodes.zipIdx 1 = nodes.zipIdx.map fun found => (found.1, found.2 + 1) :=
      List.zipIdx_succ
    rw [walk, ih, List.zipIdx_cons, List.flatMap_cons, Nat.zero_add, hshift, List.flatMap_map]
    simp only [nodesAbove_succ, List.append_assoc, List.singleton_append]
    rfl

end Positions

/-! ### Candidates -/

theorem map_candidate_walk_members (className : Option (List Char))
    (above : List (Option SourceComment)) (members : List Member) :
    (walk Member.asComment? (fun above member =>
        (Candidate.ofMembers className [] [member]).map (ofCandidate above)) above members).map
      candidate = Candidate.ofMembers className (commentRun above) members := by
  induction members generalizing above with
  | nil => rfl
  | cons member members ih =>
    rw [walk, List.map_append, ih]
    cases member with
    | comment found => rfl
    | method accessor name inner =>
      simp only [Candidate.ofMembers]
      split
      next => rfl
      next => rfl
    | other inner => rfl

theorem map_candidate_ofMembers (className : Option (List Char)) (members : List Member) :
    (ofMembers className members).map candidate = Candidate.ofMembers className [] members := by
  have hwalk := map_candidate_walk_members className [] members
  simp only [walk_eq_flatMap, List.append_nil] at hwalk
  exact hwalk

theorem map_ofDeclarator? (above : List (Option SourceComment)) (declarator : Declarator) :
    (Candidate.ofDeclarator? [] declarator).map (candidate ∘ ofCandidate above) =
      Candidate.ofDeclarator? (commentRun above) declarator := by
  obtain ⟨name, inner, value⟩ := declarator
  cases value with
  | none => rfl
  | some value => cases value <;> rfl

/-- The functions of a statement are those of its sites. -/
theorem map_candidate_ofItem (above : List (Option SourceComment)) (item : Item) :
    (ofItem above item).map candidate = Candidate.ofItem (commentRun above) item := by
  rw [ofItem, Candidate.ofItem]
  cases item.declaration with
  | declared value =>
    cases value with
    | classOf name members => exact map_candidate_ofMembers name members
    | arrow | function | generator | other => rfl
  | «variables» declarators =>
    show ((declarators.filterMap (Candidate.ofDeclarator? [])).map (ofCandidate above)).map candidate =
      declarators.filterMap (Candidate.ofDeclarator? (commentRun above))
    rw [List.map_map, List.map_filterMap]
    exact List.filterMap_congr fun declarator _ => map_ofDeclarator? above declarator
  | comment | interpreterLine | importFrom | exported | signature | ambient | other => rfl

theorem map_candidate_walk_items (above : List (Option SourceComment)) (items : List Item) :
    (walk Item.asComment? ofItem above items).map candidate =
      Candidate.ofItems (commentRun above) items := by
  induction items generalizing above with
  | nil => rfl
  | cons item items ih =>
    rw [walk, List.map_append, ih, map_candidate_ofItem]
    cases item with
    | comment found => rfl
    | declared | «variables» | interpreterLine | importFrom | exported | signature | ambient | other =>
      rfl

/-- The candidates of a file are its sites, each with the run of comments directly above it. -/
theorem map_candidate_ofItems (items : List Item) :
    (ofItems items).map candidate = Candidate.ofItems [] items := by
  have hwalk := map_candidate_walk_items [] items
  simp only [walk_eq_flatMap, List.append_nil] at hwalk
  exact hwalk

theorem entry?_candidate (site : Site) : site.candidate.entry? = site.entryBy visibleDoc? := by
  unfold Candidate.entry? entryBy
  rw [candidate, docComment?_commentRun]
  cases visibleDoc? site.above <;> rfl

theorem inGroups_map_candidate (sites : List Site) :
    ([.declared, .bound, .method].flatMap fun group =>
        Candidate.ofGroup group (sites.map candidate)) = (inGroups sites).map candidate := by
  rw [inGroups, List.map_flatMap]
  refine List.flatMap_congr fun group _ => ?_
  rw [Candidate.ofGroup, List.filter_map]
  rfl

/-- The entries of a file are those of its sites with the documentation that is visible there. -/
theorem functionEntries_eq (items : List Item) :
    functionEntries items = (inGroups (ofItems items)).filterMap (entryBy visibleDoc?) := by
  show ([.declared, .bound, .method].flatMap fun group =>
    Candidate.ofGroup group (Candidate.ofItems [] items)).filterMap Candidate.entry? = _
  rw [← map_candidate_ofItems, inGroups_map_candidate, List.filterMap_map]
  exact List.filterMap_congr fun site _ => entry?_candidate site

/-- **A function gets the nearest documentation unless an empty block hides it.** The functions of a
file are documented by what is visible in front of their anchors. Where no empty block comes before the
nearest documentation, that documentation is what they get. Comments that are neither documentation nor
empty blocks do not matter, wherever they stand. -/
theorem functionEntries_documented (items : List Item) :
    functionEntries items = (inGroups (ofItems items)).filterMap (entryBy visibleDoc?) ∧
      ((∀ site ∈ ofItems items, emptyBlockNearer site.above = false) →
        functionEntries items = (inGroups (ofItems items)).filterMap (entryBy nearestDoc?)) ∧
      ∀ comment : SourceComment, DocComment.parse? comment.text = none →
        Comment.emptyBlock.isPrefixOf comment.text = false → ∀ nearer farther,
          visibleDoc? (nearer ++ some comment :: farther) = visibleDoc? (nearer ++ farther) := by
  refine ⟨functionEntries_eq items, fun hclear => ?_, fun comment hread hblock nearer farther =>
    visibleDoc?_insert hblock hread nearer farther⟩
  rw [functionEntries_eq]
  refine List.filterMap_congr fun site hsite => ?_
  obtain ⟨group, -, hgroup⟩ := List.mem_flatMap.1 hsite
  have hvisible : visibleDoc? site.above = nearestDoc? site.above := by
    rw [visibleDoc?, hclear site (List.mem_filter.1 hgroup).1]
    rfl
  rw [entryBy, entryBy, hvisible]

/-- A class with documented methods and a function, with comments of all kinds in between. -/
def annotatedItems : List Item :=
  [.comment (.block "* Far. */".toList), .comment (.block "* Near.\n@param x - input */".toList),
    .comment (.line " plain".toList), .comment (.block " plain */".toList),
    .declared (.function (some "load".toList) []),
    .declared (.classOf (some "Store".toList)
      [.comment (.block "* Kept apart. */".toList), .other [],
        .comment (.line "* no block".toList), .method false "save".toList []])]

theorem functionEntries_annotatedItems :
    (∀ site ∈ ofItems annotatedItems, emptyBlockNearer site.above = false) ∧
      functionEntries annotatedItems =
        [{ name := "load", description := some "Near.",
           params := [⟨"x", none, some "input"⟩] }, { name := "Store.save" }] := by
  have hclear : ∀ site ∈ ofItems annotatedItems, emptyBlockNearer site.above = false := by
    decide +kernel
  refine ⟨hclear, ?_⟩
  rw [(functionEntries_documented annotatedItems).2.1 hclear]
  decide +kernel

/-- An empty block hides the documentation in front of it. -/
theorem exists_documentation_hidden :
    ∃ items : List Item,
      functionEntries items ≠ (inGroups (ofItems items)).filterMap (entryBy nearestDoc?) :=
  ⟨[.comment (.block "* Loads. */".toList), .comment (.block "*/".toList),
    .declared (.function (some "load".toList) [])], by decide +kernel⟩

end Site

end SourceAtlas
