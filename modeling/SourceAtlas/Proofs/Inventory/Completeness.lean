import SourceAtlas.Proofs.Graph.Places
import SourceAtlas.Proofs.Inventory.Documentation

/-!
# Which functions a file's inventory lists

A function at the top level of a file has a place: its group, the position of its statement, and its
position among the variables or the members that the statement declares. `FunctionAt` says which
functions there are, by the nodes of the syntax tree alone, and `RecordAt` which records they have. The
inventory lists these records in the order of their places, each once (`listsInOrder_functionEntries`,
and with all that follows `functionEntries_complete`).

Methods are left out by the text of their names. A class may write the name of its constructor in
quotes, and then the constructor is listed like a method (`exists_constructor_listed`).

Nothing below the top level matters: a file and its outline, in which all that is nested is taken away,
have the same inventory (`functionEntries_outline`).
-/

namespace SourceAtlas

open Text Syntax

/-! ### Places -/

/-- The position of a group in the inventory. -/
def FunctionGroup.rank : FunctionGroup → Nat
  | declared => 0
  | bound => 1
  | method => 2

/-- Where a function stands: its group, the position of its statement, and its position among the
variables or the members that are declared there. -/
structure FunctionPlace where
  group : FunctionGroup
  statement : Nat
  part : Nat
deriving DecidableEq

/-- The order of the inventory: by groups, and in each group as in the source. -/
def FunctionPlace.Before (p q : FunctionPlace) : Prop :=
  p.group.rank < q.group.rank ∨
    p.group = q.group ∧ (p.statement < q.statement ∨ p.statement = q.statement ∧ p.part < q.part)

/-! ### Functions by the nodes of the tree -/

/-- A value is a function, with the name that it has of its own, if any. -/
inductive IsFunction : Value → Option (List Char) → Prop
  | arrow (inner : List Item) : IsFunction (.arrow inner) none
  | function (own : Option (List Char)) (inner : List Item) : IsFunction (.function own inner) own
  | generator (own : Option (List Char)) (inner : List Item) : IsFunction (.generator own inner) own

/-- The functions at the top level of a file with their places, their names and the nodes above their
anchors. A method with one of the given names is a constructor and no function of its own. -/
inductive FunctionAt (constructors : List (List Char)) (items : List Item) :
    FunctionPlace → List Char → List (Option SourceComment) → Prop
  /-- A declared function, exported or not, or a function that is exported as a value. -/
  | declared {i : Nat} {item : Item} {value : Value} {name : List Char}
      (hitem : items[i]? = some item) (hvalue : item.declaration = .declared value)
      (hfunction : IsFunction value (some name)) :
      FunctionAt constructors items ⟨.declared, i, 0⟩ name (Site.nodesAbove Item.asComment? items i)
  /-- A function that a variable is bound to. Its own name counts before the variable's. -/
  | bound {i j : Nat} {item : Item} {declarators : List Declarator} {target : Option (List Char)}
      {inner : List Item} {value : Value} {own : Option (List Char)} {name : List Char}
      (hitem : items[i]? = some item) (hvariables : item.declaration = .variables declarators)
      (hvariable : declarators[j]? = some (.mk target inner (some value)))
      (hfunction : IsFunction value own) (hname : own.or target = some name) :
      FunctionAt constructors items ⟨.bound, i, j⟩ name (Site.nodesAbove Item.asComment? items i)
  /-- A method of a class that is neither an accessor nor a constructor. -/
  | method {i j : Nat} {item : Item} {owner : Option (List Char)} {members : List Member}
      {name : List Char} {inner : List Item}
      (hitem : items[i]? = some item) (hclass : item.declaration = .declared (.classOf owner members))
      (hmember : members[j]? = some (.method false name inner)) (hname : name ∉ constructors) :
      FunctionAt constructors items ⟨.method, i, j⟩ (owner.elim name fun text => text ++ '.' :: name)
        (Site.nodesAbove Member.asComment? members j)

/-- The record of a function with the documentation that is visible among the nodes above it. -/
def Site.record (name : List Char) (above : List (Option SourceComment)) : FunctionEntry :=
  (visibleDoc? above).elim { name := String.ofList name } fun doc =>
    doc.document { name := String.ofList name }

/-- The records of the functions that have a name. -/
def RecordAt (constructors : List (List Char)) (items : List Item) (place : FunctionPlace)
    (entry : FunctionEntry) : Prop :=
  ∃ name above, FunctionAt constructors items place name above ∧ name ≠ [] ∧
    entry = Site.record name above

/-- Whether entries are the ones that a relation gives to places, in the order of the places and each
place once. -/
def ListsInOrder (R : FunctionPlace → FunctionEntry → Prop) (entries : List FunctionEntry) : Prop :=
  ∃ listed : List (FunctionPlace × FunctionEntry), listed.map Prod.snd = entries ∧
    listed.Pairwise (fun a b => a.1.Before b.1) ∧ ∀ place entry, (place, entry) ∈ listed ↔ R place entry

/-! ### Parts of a list with their positions -/

section Tagged

variable {α β κ : Type}

/-- What is found in the elements of a list, each with the tag of its element. -/
def tagged (tag : α → κ) (find? : α → Option β) (l : List α) : List (κ × β) :=
  l.filterMap fun a => (find? a).map fun b => (tag a, b)

theorem mem_tagged {tag : α → κ} {find? : α → Option β} {l : List α} {k : κ} {b : β} :
    (k, b) ∈ tagged tag find? l ↔ ∃ a ∈ l, tag a = k ∧ find? a = some b := by
  rw [tagged, List.mem_filterMap]
  constructor
  · rintro ⟨a, hmem, hfound⟩
    obtain ⟨b', hb, heq⟩ := Option.map_eq_some_iff.1 hfound
    obtain ⟨htag, rfl⟩ := Prod.mk.inj heq
    exact ⟨a, hmem, htag, hb⟩
  · rintro ⟨a, hmem, rfl, hb⟩
    exact ⟨a, hmem, by rw [hb]; rfl⟩

/-- The tags of what is found are in the order of the elements. -/
theorem pairwise_tagged {r : κ → κ → Prop} {tag : α → κ} (find? : α → Option β) {l : List α}
    (h : l.Pairwise fun a b => r (tag a) (tag b)) :
    (tagged tag find? l).Pairwise fun a b => r a.1 b.1 := by
  rw [tagged, List.pairwise_filterMap]
  refine h.imp ?_
  intro x y hxy a ha b hb
  obtain ⟨a', -, rfl⟩ := Option.map_eq_some_iff.1 ha
  obtain ⟨b', -, rfl⟩ := Option.map_eq_some_iff.1 hb
  exact hxy

theorem map_snd_tagged (tag : α → κ) (find? : α → Option β) (l : List α) :
    (tagged tag find? l).map Prod.snd = l.filterMap find? := by
  rw [tagged, List.map_filterMap]
  refine List.filterMap_congr fun a _ => ?_
  rw [Option.map_map]
  exact Option.map_id'

/-- What is found at the positions of a list. -/
def indexed (find? : Nat → α → Option β) (l : List α) : List (Nat × β) :=
  tagged Prod.snd (fun found => find? found.2 found.1) l.zipIdx

theorem mem_indexed {find? : Nat → α → Option β} {l : List α} {j : Nat} {b : β} :
    (j, b) ∈ indexed find? l ↔ ∃ a, l[j]? = some a ∧ find? j a = some b := by
  rw [indexed, mem_tagged]
  constructor
  · rintro ⟨⟨a, k⟩, hmem, rfl, hb⟩
    exact ⟨a, List.mem_zipIdx_iff_getElem?.1 hmem, hb⟩
  · rintro ⟨a, ha, hb⟩
    exact ⟨(a, j), List.mem_zipIdx_iff_getElem?.2 ha, rfl, hb⟩

theorem pairwise_indexed (find? : Nat → α → Option β) (l : List α) :
    (indexed find? l).Pairwise fun a b => a.1 < b.1 :=
  pairwise_tagged _ (pairwise_zipIdx_lt l 0)

end Tagged

/-! ### The sites of a statement -/

/-- The method that a member of a class is, unless it is an accessor or is called like a constructor. -/
def Candidate.ofMember? (className : Option (List Char)) : Member → Option Candidate
  | .method accessor name _ =>
    if accessor || name = "constructor".toList then none
    else some ⟨.method, some (methodName className name), []⟩
  | _ => none

theorem Candidate.ofMembers_singleton (className : Option (List Char)) (member : Member) :
    ofMembers className [] [member] = (ofMember? className member).toList := by
  cases member with
  | comment | other => rfl
  | method accessor name inner =>
    rw [ofMembers, ofMember?]
    split <;> rfl

namespace Site

/-- The sites of a statement with their positions in it. -/
def partsOf (above : List (Option SourceComment)) (item : Item) : List (Nat × Site) :=
  match item.declaration with
  | .declared (.classOf owner members) =>
    indexed (fun j member => (Candidate.ofMember? owner member).map
      (ofCandidate (nodesAbove Member.asComment? members j))) members
  | .variables declarators =>
    indexed (fun _ declarator => (Candidate.ofDeclarator? [] declarator).map (ofCandidate above))
      declarators
  | declaration =>
    (Candidate.ofDeclaration [] declaration).map fun found => (0, ofCandidate above found)

theorem map_snd_partsOf (above : List (Option SourceComment)) (item : Item) :
    (partsOf above item).map Prod.snd = ofItem above item := by
  rw [partsOf, ofItem]
  cases item.declaration with
  | declared value =>
    cases value with
    | classOf owner members =>
      show (indexed _ members).map Prod.snd = ofMembers owner members
      rw [indexed, map_snd_tagged, List.filterMap_eq_flatMap_toList, ofMembers]
      refine List.flatMap_congr fun found _ => ?_
      rw [Candidate.ofMembers_singleton, Option.toList_map]
    | arrow | function | generator | other => rfl
  | «variables» declarators =>
    show (indexed _ declarators).map Prod.snd =
      (declarators.filterMap (Candidate.ofDeclarator? [])).map (ofCandidate above)
    rw [indexed, map_snd_tagged, List.map_filterMap]
    -- the positions are not used here
    nth_rewrite 2 [← List.zipIdx_map_fst 0 declarators]
    rw [List.filterMap_map]
    rfl
  | comment | interpreterLine | importFrom | exported | signature | ambient | other => rfl

/-- The sites of a statement stand at different positions, in order. -/
theorem pairwise_partsOf (above : List (Option SourceComment)) (item : Item) :
    (partsOf above item).Pairwise fun a b => a.1 < b.1 := by
  unfold partsOf
  cases item.declaration with
  | declared value =>
    cases value with
    | classOf owner members => exact pairwise_indexed _ members
    | function | generator => exact List.pairwise_singleton _ _
    | arrow | other => exact List.Pairwise.nil
  | «variables» declarators => exact pairwise_indexed _ declarators
  | comment | interpreterLine | importFrom | exported | signature | ambient | other =>
    exact List.Pairwise.nil

/-! ### The sites of a file -/

/-- The sites of a file with their places, group by group. -/
def placed (items : List Item) : List (FunctionPlace × Site) :=
  [.declared, .bound, .method].flatMap fun group => items.zipIdx.flatMap fun found =>
    ((partsOf (nodesAbove Item.asComment? items found.2) found.1).filter fun part =>
      part.2.group = group).map fun part => (⟨group, found.2, part.1⟩, part.2)

theorem map_snd_placed (items : List Item) :
    (placed items).map Prod.snd = inGroups (ofItems items) := by
  rw [placed, inGroups, List.map_flatMap]
  refine List.flatMap_congr fun group _ => ?_
  rw [List.map_flatMap, ofItems, List.filter_flatMap]
  refine List.flatMap_congr fun found _ => ?_
  rw [List.map_map, ← map_snd_partsOf, List.filter_map]
  rfl

theorem mem_placed {items : List Item} {place : FunctionPlace} {site : Site} :
    (place, site) ∈ placed items ↔ site.group = place.group ∧
      ∃ item, items[place.statement]? = some item ∧
        (place.part, site) ∈ partsOf (nodesAbove Item.asComment? items place.statement) item := by
  simp only [placed, List.mem_flatMap, List.mem_map, List.mem_filter, decide_eq_true_eq]
  constructor
  · rintro ⟨group, -, ⟨item, i⟩, hitem, ⟨j, site'⟩, ⟨hpart, hgroup⟩, heq⟩
    obtain ⟨rfl, rfl⟩ := Prod.mk.inj heq
    exact ⟨hgroup, item, List.mem_zipIdx_iff_getElem?.1 hitem, hpart⟩
  · rintro ⟨hgroup, item, hitem, hpart⟩
    refine ⟨place.group, ?_, (item, place.statement), List.mem_zipIdx_iff_getElem?.2 hitem,
      (place.part, site), ⟨hpart, hgroup⟩, rfl⟩
    cases place.group <;> decide

/-- The places are in the order of the inventory, and different. -/
theorem pairwise_placed (items : List Item) :
    (placed items).Pairwise fun a b => a.1.Before b.1 := by
  have hgroup (group : FunctionGroup) (slot : FunctionPlace × Site)
      (h : slot ∈ items.zipIdx.flatMap fun found =>
        ((partsOf (nodesAbove Item.asComment? items found.2) found.1).filter fun part =>
          part.2.group = group).map fun part => (⟨group, found.2, part.1⟩, part.2)) :
      slot.1.group = group := by
    obtain ⟨found, -, hslot⟩ := List.mem_flatMap.1 h
    obtain ⟨part, -, rfl⟩ := List.mem_map.1 hslot
    rfl
  rw [placed, List.pairwise_flatMap]
  refine ⟨fun group _ => ?_, ?_⟩
  · rw [List.pairwise_flatMap]
    refine ⟨fun found _ => ?_, (pairwise_zipIdx_lt items 0).imp ?_⟩
    · -- in one statement the positions of the parts decide
      rw [List.pairwise_map]
      refine ((pairwise_partsOf _ _).filter _).imp fun hlt => ?_
      exact .inr ⟨rfl, .inr ⟨rfl, hlt⟩⟩
    · -- in one group the positions of the statements decide
      intro x y hlt a ha b hb
      obtain ⟨part, -, rfl⟩ := List.mem_map.1 ha
      obtain ⟨part', -, rfl⟩ := List.mem_map.1 hb
      exact .inr ⟨rfl, .inl hlt⟩
  · have hranks : [FunctionGroup.declared, .bound, .method].Pairwise fun g h => g.rank < h.rank := by
      decide
    refine hranks.imp fun hlt a ha b hb => .inl ?_
    rwa [hgroup _ a ha, hgroup _ b hb]

end Site

/-! ### What the candidates are -/

/-- The name under which a method is left out. -/
def constructorName : List Char := "constructor".toList

theorem Candidate.methodName_eq (owner : Option (List Char)) (name : List Char) :
    methodName owner name = owner.elim name fun text => text ++ '.' :: name := by
  cases owner <;> rfl

theorem Candidate.ofMember?_eq_some_iff {owner : Option (List Char)} {member : Member}
    {found : Candidate} :
    ofMember? owner member = some found ↔ ∃ name inner, member = .method false name inner ∧
      name ∉ [constructorName] ∧
        found = ⟨.method, some (owner.elim name fun text => text ++ '.' :: name), []⟩ := by
  cases member with
  | comment | other =>
    constructor
    · intro h
      cases h
    · rintro ⟨name, inner, heq, -⟩
      cases heq
  | method accessor name inner =>
    rw [ofMember?, methodName_eq]
    constructor
    · intro h
      split at h
      next => cases h
      next hkeep =>
        rw [Bool.or_eq_true, decide_eq_true_eq, not_or] at hkeep
        obtain rfl := Bool.eq_false_of_not_eq_true hkeep.1
        exact ⟨name, inner, rfl, fun hname => hkeep.2 (List.mem_singleton.1 hname),
          (Option.some.inj h).symm⟩
    · rintro ⟨name, inner, heq, hname, rfl⟩
      cases heq
      refine if_neg ?_
      rw [Bool.or_eq_true, decide_eq_true_eq, not_or]
      exact ⟨Bool.false_ne_true, fun heq => hname (List.mem_singleton.2 heq)⟩

theorem Candidate.ofDeclarator?_eq_some_iff {declarator : Declarator} {found : Candidate} :
    ofDeclarator? [] declarator = some found ↔ ∃ target inner value own,
      declarator = .mk target inner (some value) ∧ IsFunction value own ∧
        found = ⟨.bound, own.or target, []⟩ := by
  constructor
  · intro h
    obtain ⟨target, inner, value⟩ := declarator
    cases value with
    | none => cases h
    | some value =>
      cases value with
      | arrow body => exact ⟨_, _, _, _, rfl, .arrow body, (Option.some.inj h).symm⟩
      | function own body => exact ⟨_, _, _, _, rfl, .function own body, (Option.some.inj h).symm⟩
      | generator own body => exact ⟨_, _, _, _, rfl, .generator own body, (Option.some.inj h).symm⟩
      | classOf | other => cases h
  · rintro ⟨target, inner, value, own, rfl, hfunction, rfl⟩
    cases hfunction <;> rfl

namespace Site

/-- The functions with a name are the sites with one, each at its place. -/
theorem functionAt_iff {items : List Item} {place : FunctionPlace} {name : List Char}
    {above : List (Option SourceComment)} :
    FunctionAt [constructorName] items place name above ↔
      (place, ⟨place.group, some name, above⟩) ∈ placed items := by
  rw [mem_placed]
  constructor
  · intro h
    cases h with
    | declared hitem hvalue hfunction =>
      refine ⟨rfl, _, hitem, ?_⟩
      rw [partsOf, hvalue]
      cases hfunction <;> exact List.mem_singleton.2 rfl
    | bound hitem hvariables hvariable hfunction hname =>
      refine ⟨rfl, _, hitem, ?_⟩
      rw [partsOf, hvariables]
      refine mem_indexed.2 ⟨_, hvariable, ?_⟩
      rw [Candidate.ofDeclarator?_eq_some_iff.2 ⟨_, _, _, _, rfl, hfunction, rfl⟩, hname]
      rfl
    | method hitem hclass hmember hname =>
      refine ⟨rfl, _, hitem, ?_⟩
      rw [partsOf, hclass]
      refine mem_indexed.2 ⟨_, hmember, ?_⟩
      rw [Candidate.ofMember?_eq_some_iff.2 ⟨_, _, rfl, hname, rfl⟩]
      rfl
  · rintro ⟨-, item, hitem, hpart⟩
    obtain ⟨group, i, j⟩ := place
    unfold partsOf at hpart
    split at hpart
    next owner members hclass =>
      obtain ⟨member, hmember, hfound⟩ := mem_indexed.1 hpart
      obtain ⟨found, hcandidate, hsite⟩ := Option.map_eq_some_iff.1 hfound
      obtain ⟨text, inner, rfl, hname, rfl⟩ := Candidate.ofMember?_eq_some_iff.1 hcandidate
      cases hsite
      exact .method hitem hclass hmember hname
    next declarators hvariables =>
      obtain ⟨declarator, hdeclarator, hfound⟩ := mem_indexed.1 hpart
      obtain ⟨found, hcandidate, hsite⟩ := Option.map_eq_some_iff.1 hfound
      obtain ⟨target, inner, value, own, rfl, hfunction, rfl⟩ :=
        Candidate.ofDeclarator?_eq_some_iff.1 hcandidate
      obtain ⟨rfl, hname, rfl⟩ := Site.mk.inj hsite
      exact .bound hitem hvariables hdeclarator hfunction hname
    next hclass hvariables =>
      obtain ⟨found, hcandidate, heq⟩ := List.mem_map.1 hpart
      obtain ⟨rfl, hsite⟩ := Prod.mk.inj heq
      cases hdeclaration : item.declaration with
      | declared value =>
        rw [hdeclaration] at hcandidate
        cases value with
        | function own inner =>
          obtain rfl := List.mem_singleton.1 hcandidate
          obtain ⟨rfl, rfl, rfl⟩ := Site.mk.inj hsite
          exact .declared hitem hdeclaration (.function _ inner)
        | generator own inner =>
          obtain rfl := List.mem_singleton.1 hcandidate
          obtain ⟨rfl, rfl, rfl⟩ := Site.mk.inj hsite
          exact .declared hitem hdeclaration (.generator _ inner)
        | classOf owner members => exact absurd hdeclaration (hclass owner members)
        | arrow | other => cases hcandidate
      | «variables» declarators => exact absurd hdeclaration (hvariables declarators)
      | comment | interpreterLine | importFrom | exported | signature | ambient | other =>
        rw [hdeclaration] at hcandidate
        cases hcandidate

end Site

/-! ### Records -/

theorem DocTag.name_document (entry : FunctionEntry) (tag : DocTag) :
    (tag.document entry).name = entry.name := by
  unfold DocTag.document
  split_ifs <;> rfl

theorem DocComment.name_document (doc : DocComment) (entry : FunctionEntry) :
    (doc.document entry).name = entry.name := by
  unfold DocComment.document
  generalize hstart : { entry with description := doc.description.map String.ofList } = start
  have hname : start.name = entry.name := by rw [← hstart]
  rw [← hname]
  -- no tag changes the name
  clear hstart hname
  induction doc.tags generalizing start with
  | nil => rfl
  | cons tag tags ih => rw [List.foldl_cons, ih, DocTag.name_document]

namespace Site

theorem name_record (name : List Char) (above : List (Option SourceComment)) :
    (record name above).name = String.ofList name := by
  unfold record
  cases visibleDoc? above with
  | none => rfl
  | some doc => exact doc.name_document _

theorem entryBy_eq_some_iff {site : Site} {entry : FunctionEntry} :
    site.entryBy visibleDoc? = some entry ↔
      ∃ name, site.name = some name ∧ name ≠ [] ∧ entry = record name site.above := by
  rw [entryBy, Option.map_eq_some_iff]
  constructor
  · rintro ⟨name, hname, rfl⟩
    obtain ⟨text, htext, hsome⟩ := Option.bind_eq_some_iff.1 hname
    obtain ⟨hne, rfl⟩ := nonEmpty?_eq_some_iff.1 hsome
    exact ⟨text, htext, hne, rfl⟩
  · rintro ⟨name, hname, hne, rfl⟩
    exact ⟨name, by rw [hname, Option.bind_some, nonEmpty?_eq_some_iff]; exact ⟨hne, rfl⟩, rfl⟩

/-- **The inventory lists the records of the functions in the order of their places.** -/
theorem listsInOrder_functionEntries (items : List Item) :
    ListsInOrder (RecordAt [constructorName] items) (functionEntries items) := by
  refine ⟨tagged Prod.fst (fun slot => slot.2.entryBy visibleDoc?) (placed items), ?_,
    pairwise_tagged _ (pairwise_placed items), fun place entry => ?_⟩
  · rw [map_snd_tagged, functionEntries_eq, ← map_snd_placed, List.filterMap_map]
    rfl
  · rw [mem_tagged]
    constructor
    · rintro ⟨⟨place, site⟩, hslot, rfl, hsite⟩
      obtain ⟨name, hname, hne, rfl⟩ := entryBy_eq_some_iff.1 hsite
      obtain ⟨group, found, above⟩ := site
      obtain rfl : found = some name := hname
      obtain rfl : group = place.group := (mem_placed.1 hslot).1
      exact ⟨name, above, functionAt_iff.2 hslot, hne, rfl⟩
    · rintro ⟨name, above, hfunction, hne, rfl⟩
      exact ⟨(place, ⟨place.group, some name, above⟩), functionAt_iff.1 hfunction, rfl,
        entryBy_eq_some_iff.2 ⟨name, rfl, hne, rfl⟩⟩

end Site

theorem RecordAt.name_ne {constructors : List (List Char)} {items : List Item} {place : FunctionPlace}
    {entry : FunctionEntry} (h : RecordAt constructors items place entry) : entry.name ≠ "" := by
  obtain ⟨name, above, -, hne, rfl⟩ := h
  rw [Site.name_record]
  exact fun hempty => hne (String.ofList_injective hempty)

/-- Functions stand in statements that declare values or variables, exported or not. -/
theorem RecordAt.declares {constructors : List (List Char)} {items : List Item} {place : FunctionPlace}
    {entry : FunctionEntry} (h : RecordAt constructors items place entry) :
    ∃ item, items[place.statement]? = some item ∧
      ((∃ value, item.declaration = .declared value) ∨
        ∃ declarators, item.declaration = .variables declarators) := by
  obtain ⟨name, above, hfunction, -⟩ := h
  cases hfunction with
  | declared hitem hvalue => exact ⟨_, hitem, .inl ⟨_, hvalue⟩⟩
  | bound hitem hvariables => exact ⟨_, hitem, .inr ⟨_, hvariables⟩⟩
  | method hitem hclass => exact ⟨_, hitem, .inl ⟨_, hclass⟩⟩

/-! ### Outlines -/

/-- A member of a class without what is nested in it. -/
def Syntax.Member.outline : Member → Member
  | .comment found => .comment found
  | .method accessor name _ => .method accessor name []
  | .other _ => .other []

/-- A value without the bodies of its functions and methods and all else that is nested in it. -/
def Syntax.Value.outline : Value → Value
  | .arrow _ => .arrow []
  | .function name _ => .function name []
  | .generator name _ => .generator name []
  | .classOf name members => .classOf name (members.map Member.outline)
  | .other _ => .other []

/-- A declared variable without what is nested in its pattern and its value. -/
def Syntax.Declarator.outline : Declarator → Declarator
  | .mk name _ value => .mk name [] (value.map Value.outline)

/-- A statement without what is nested in it; comments and imports stay as they are. -/
def Syntax.Item.outline : Item → Item
  | .comment found => .comment found
  | .interpreterLine => .interpreterLine
  | .importFrom source => .importFrom source
  | .declared value => .declared value.outline
  | .variables declarators => .variables (declarators.map Declarator.outline)
  | .exported content => .exported content.outline
  | .signature name _ => .signature name []
  | .ambient content => .ambient content.outline
  | .other _ => .other []

namespace Candidate

theorem ofMembers_outline (className : Option (List Char)) (comments : List (List Char))
    (members : List Member) :
    ofMembers className comments (members.map Member.outline) =
      ofMembers className comments members := by
  induction members generalizing comments with
  | nil => rfl
  | cons member members ih =>
    cases member with
    | comment found => exact ih _
    | method accessor name inner =>
      rw [List.map_cons, Member.outline, ofMembers, ofMembers, ih]
    | other inner => exact ih _

theorem ofDeclarator?_outline (comments : List (List Char)) (declarator : Declarator) :
    ofDeclarator? comments declarator.outline = ofDeclarator? comments declarator := by
  obtain ⟨name, inner, value⟩ := declarator
  cases value with
  | none => rfl
  | some value => cases value <;> rfl

theorem ofDeclaration_outline (comments : List (List Char)) (item : Item) :
    ofDeclaration comments item.outline = ofDeclaration comments item := by
  cases item with
  | declared value =>
    cases value with
    | classOf name members => exact ofMembers_outline name [] members
    | arrow | function | generator | other => rfl
  | «variables» declarators =>
    show (declarators.map Declarator.outline).filterMap (ofDeclarator? comments) =
      declarators.filterMap (ofDeclarator? comments)
    rw [List.filterMap_map]
    exact List.filterMap_congr fun declarator _ => ofDeclarator?_outline comments declarator
  | comment | interpreterLine | importFrom | exported | signature | ambient | other => rfl

theorem ofItem_outline (comments : List (List Char)) (item : Item) :
    ofItem comments item.outline = ofItem comments item := by
  have hdeclaration : item.outline.declaration = item.declaration.outline := by cases item <;> rfl
  rw [ofItem, ofItem, hdeclaration, ofDeclaration_outline]

theorem ofItems_outline (comments : List (List Char)) (items : List Item) :
    ofItems comments (items.map Item.outline) = ofItems comments items := by
  induction items generalizing comments with
  | nil => rfl
  | cons item items ih =>
    cases item with
    | comment found => exact ih _
    | declared | «variables» | interpreterLine | importFrom | exported | signature | ambient | other =>
      exact congrArg₂ (· ++ ·) (ofItem_outline comments _) (ih [])

end Candidate

/-- **What is nested in the statements of a file does not matter.** -/
theorem functionEntries_outline (items : List Item) :
    functionEntries (items.map Item.outline) = functionEntries items := by
  unfold functionEntries
  rw [Candidate.ofItems_outline]

/-! ### The inventory -/

/-- **The inventory is complete, in groups, and depends on the top level only.** It lists the records of
the named functions that are declared, bound to variables or methods, in this order and each group as in
the source, one for each; methods written `constructor` are left out. No record has an empty name, and
none stands for a signature without a body or for a declaration of something defined elsewhere. Files
with the same outline have the same inventory. -/
theorem functionEntries_complete (items : List Item) :
    ListsInOrder (RecordAt [constructorName] items) (functionEntries items) ∧
      (∀ entry ∈ functionEntries items, entry.name ≠ "") ∧
      (∀ i item, items[i]? = some item →
        (∃ name inner, item.declaration = .signature name inner) ∨
          (∃ content, item.declaration = .ambient content) →
        ∀ place entry, RecordAt [constructorName] items place entry → place.statement ≠ i) ∧
      ∀ others : List Item, items.map Item.outline = others.map Item.outline →
        functionEntries items = functionEntries others := by
  have hlists := Site.listsInOrder_functionEntries items
  refine ⟨hlists, fun entry hentry => ?_, fun i item hitem hbodiless place entry hrecord hplace => ?_,
    fun others houtline => ?_⟩
  · obtain ⟨listed, hentries, -, hmem⟩ := hlists
    rw [← hentries] at hentry
    obtain ⟨slot, hslot, rfl⟩ := List.mem_map.1 hentry
    exact ((hmem slot.1 slot.2).1 hslot).name_ne
  · obtain ⟨found, hfound, hdeclares⟩ := hrecord.declares
    rw [hplace, hitem] at hfound
    obtain rfl := Option.some.inj hfound
    rcases hbodiless with ⟨name, inner, hbodiless⟩ | ⟨content, hbodiless⟩
    all_goals
      rw [hbodiless] at hdeclares
      rcases hdeclares with ⟨_, hother⟩ | ⟨_, hother⟩ <;> cases hother
  · rw [← functionEntries_outline items, houtline, functionEntries_outline]

/-- A file with statements of all kinds and a given body of its functions. -/
def mixedFile (body : List Item) : List Item :=
  [.declared (.classOf (some "A".toList)
      [.method false constructorName body, .method true "size".toList body,
        .method false "grow".toList body]),
    .signature "load".toList body,
    .variables [.mk (some "once".toList) [] (some (.arrow body)), .mk (some "n".toList) [] none],
    .ambient (.declared (.function (some "elsewhere".toList) body)),
    .exported (.declared (.generator (some "load".toList) body))]

theorem functionEntries_mixedFile :
    (functionEntries (mixedFile [])).map FunctionEntry.name = ["load", "once", "A.grow"] ∧
      (∀ entry ∈ functionEntries (mixedFile []), entry.name ≠ "") ∧
      (∀ place entry, RecordAt [constructorName] (mixedFile []) place entry →
        place.statement ≠ 1 ∧ place.statement ≠ 3) ∧
      functionEntries (mixedFile []) = functionEntries (mixedFile [.interpreterLine]) := by
  obtain ⟨-, hnames, hbodiless, houtline⟩ := functionEntries_complete (mixedFile [])
  refine ⟨by decide +kernel, hnames, fun place entry hrecord => ⟨?_, ?_⟩, houtline _ rfl⟩
  · exact hbodiless 1 _ rfl (.inl ⟨_, _, rfl⟩) place entry hrecord
  · exact hbodiless 3 _ rfl (.inr ⟨_, rfl⟩) place entry hrecord

/-- The ways to write the name that makes a method the constructor of its class. -/
def constructorSpellings : List (List Char) :=
  [constructorName, '\'' :: constructorName ++ ['\''], '"' :: constructorName ++ ['"']]

/-- A class whose only member is its constructor, with its name in quotes. -/
def quotedConstructor : List Item :=
  [.declared (.classOf (some "A".toList) [.method false ('\'' :: constructorName ++ ['\'']) []])]

/-- A constructor is listed like a method if its name is written in quotes. -/
theorem exists_constructor_listed :
    ∃ items, ¬ ListsInOrder (RecordAt constructorSpellings items) (functionEntries items) := by
  refine ⟨quotedConstructor, ?_⟩
  rintro ⟨listed, hentries, -, hmem⟩
  have hentry : { name := "A.'constructor'" } ∈ functionEntries quotedConstructor := by decide +kernel
  rw [← hentries] at hentry
  obtain ⟨⟨place, entry⟩, hslot, -⟩ := List.mem_map.1 hentry
  obtain ⟨name, above, hfunction, -⟩ := (hmem place entry).1 hslot
  -- the class holds nothing but its constructor
  cases hfunction with
  | declared hitem hvalue hfunction =>
    obtain rfl := List.mem_singleton.1 (List.mem_of_getElem? hitem)
    cases hvalue
    cases hfunction
  | bound hitem hvariables =>
    obtain rfl := List.mem_singleton.1 (List.mem_of_getElem? hitem)
    cases hvariables
  | method hitem hclass hmember hname =>
    obtain rfl := List.mem_singleton.1 (List.mem_of_getElem? hitem)
    cases hclass
    cases List.mem_singleton.1 (List.mem_of_getElem? hmember)
    exact hname (List.mem_cons_of_mem _ List.mem_cons_self)

end SourceAtlas
