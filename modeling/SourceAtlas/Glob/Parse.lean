import SourceAtlas.Glob.Basic

/-!
# Reading patterns

`Glob.parse` reads a pattern from left to right. `GlobDraft` holds what has been read: the tokens
of the branch at hand and the groups of alternatives that are still open around it.
-/

namespace SourceAtlas

/-- A group of alternatives that is still open. -/
structure GlobGroup where
  /-- The branch that the group stands in, last token first. -/
  outer : List GlobToken
  /-- The finished alternatives, last one first. -/
  branches : List (List GlobToken) := []
deriving Inhabited

/-- A pattern that is being read. -/
structure GlobDraft where
  /-- The branch at hand, last token first. -/
  tokens : List GlobToken := []
  /-- The open groups, innermost first. -/
  groups : List GlobGroup := []
deriving Inhabited

namespace GlobDraft

/-- Adds a token. -/
def push (draft : GlobDraft) (token : GlobToken) : GlobDraft :=
  { draft with tokens := token :: draft.tokens }

/-- Whether a group is open. -/
def inGroup (draft : GlobDraft) : Bool := !draft.groups.isEmpty

/-- Opens a group of alternatives. -/
def openGroup (draft : GlobDraft) : GlobDraft :=
  { tokens := [], groups := { outer := draft.tokens } :: draft.groups }

/-- A comma divides alternatives; outside of groups it stands for itself. -/
def comma (draft : GlobDraft) : GlobDraft :=
  match draft.groups with
  | [] => draft.push (.literal ',')
  | group :: groups =>
    { tokens := []
      groups := { group with branches := draft.tokens.reverse :: group.branches } :: groups }

/-- Closes the innermost group, if one is open. -/
def closeGroup? (draft : GlobDraft) : Option GlobDraft :=
  match draft.groups with
  | [] => none
  | group :: groups =>
    let branches := (draft.tokens.reverse :: group.branches).reverse
    some { tokens := .alternates branches :: group.outer, groups := groups }

/-- Two stars that do not stand for directories. -/
def twoStars (draft : GlobDraft) : GlobDraft := (draft.push .star).push .star

/-- Replaces the slash in front of two stars; directories that are already open take up more. -/
def replaceSlash (draft : GlobDraft) (token : GlobToken) : GlobDraft :=
  match draft.tokens with
  | .leadingDirs :: _ => draft
  | .trailingDirs :: _ => draft
  | _ :: tokens => { draft with tokens := token :: tokens }
  | [] => draft.push token

/-- Adds two stars, given the character before and the text after them, and tells whether the slash
after them belongs to them. -/
def doubleStar (draft : GlobDraft) (before : Option Char) (after : List Char) : GlobDraft × Bool :=
  if draft.tokens.isEmpty then
    match after with
    | [] => (draft.push .leadingDirs, false)
    | '/' :: _ => (draft.push .leadingDirs, true)
    | _ => (draft.twoStars, false)
  else if before ≠ some '/' && !(draft.inGroup && (before = some ',' || before = some '{')) then
    (draft.twoStars, false)
  else match after with
    | [] => (draft.replaceSlash .trailingDirs, false)
    | '/' :: _ => (draft.replaceSlash .innerDirs, true)
    | c :: _ =>
      if draft.inGroup && (c == ',' || c == '}') then (draft.replaceSlash .trailingDirs, false)
      else (draft.twoStars, false)

end GlobDraft

/-! ### Character classes -/

/-- A character class that is being read. -/
structure ClassDraft where
  /-- The ranges, last one first. -/
  ranges : List (Char × Char) := []
  /-- Whether a dash has been read that may join two ends of a range. -/
  dashed : Bool := false
deriving Inhabited

namespace ClassDraft

/-- The upper end of the last range becomes a character, which must not be below the lower end. -/
def close (draft : ClassDraft) (c : Char) : Except GlobErrorKind ClassDraft :=
  match draft.ranges with
  | (low, _) :: ranges =>
    if c < low then .error (.invalidRange low c) else .ok { ranges := (low, c) :: ranges }
  | [] => .ok { ranges := [(c, c)] }

/-- Adds a character other than the closing bracket. -/
def add (draft : ClassDraft) (c : Char) : Except GlobErrorKind ClassDraft :=
  if draft.dashed then draft.close c
  else if c == '-' && !draft.ranges.isEmpty then .ok { draft with dashed := true }
  else .ok { ranges := (c, c) :: draft.ranges }

/-- The ranges in order. A dash at the end stands for itself. -/
def finish (draft : ClassDraft) : List (Char × Char) :=
  if draft.dashed then draft.ranges.reverse ++ [('-', '-')] else draft.ranges.reverse

end ClassDraft

/-- Reads the inside of a class up to its closing bracket; a bracket in the first place stands for
itself. -/
def classRanges (draft : ClassDraft) :
    List Char → Except GlobErrorKind (List (Char × Char) × List Char)
  | [] => .error .unclosedClass
  | c :: rest =>
    if c = ']' && !draft.ranges.isEmpty then .ok (draft.finish, rest)
    else match draft.add c with
      | .ok next => classRanges next rest
      | .error kind => .error kind

theorem length_of_classRanges {draft : ClassDraft} {cs rest : List Char}
    {ranges : List (Char × Char)} (h : classRanges draft cs = .ok (ranges, rest)) :
    rest.length ≤ cs.length := by
  induction cs generalizing draft with
  | nil => simp [classRanges] at h
  | cons c cs ih =>
    rw [classRanges] at h
    split at h
    · simp only [Except.ok.injEq, Prod.mk.injEq] at h
      simp [← h.2]
    · split at h
      · have := ih h
        simp only [List.length_cons]
        omega
      · simp at h

/-- Whether a class is negated, and the text after the mark that negates it. -/
def classNegation : List Char → Bool × List Char
  | '!' :: rest => (true, rest)
  | '^' :: rest => (true, rest)
  | rest => (false, rest)

theorem length_classNegation (cs : List Char) : (classNegation cs).2.length ≤ cs.length := by
  unfold classNegation
  split <;> simp

/-! ### Patterns -/

/-- How a pattern is read. -/
structure GlobOptions where
  /-- Whether wildcards stop at slashes. -/
  stopsAtSlash : Bool := false
  /-- Whether a class without its closing bracket is plain text. -/
  openClassIsText : Bool := false
deriving Repr, DecidableEq, Inhabited

namespace Glob

/-- Reads a pattern onto a draft, given the character before it and whether brackets still open
classes. -/
def parseOnto (options : GlobOptions) (draft : GlobDraft) (classes : Bool) (before : Option Char)
    (cs : List Char) : Except GlobErrorKind GlobDraft :=
  match cs with
  | [] => .ok draft
  | '?' :: rest => parseOnto options (draft.push .any) classes (some '?') rest
  | '*' :: '*' :: rest =>
    match draft.doubleStar before rest with
    | (next, true) => parseOnto options next classes (some '/') (rest.drop 1)
    | (next, false) => parseOnto options next classes (some '*') rest
  | '*' :: rest => parseOnto options (draft.push .star) classes (some '*') rest
  | '{' :: rest => parseOnto options draft.openGroup classes (some '{') rest
  | '}' :: rest =>
    match draft.closeGroup? with
    | some next => parseOnto options next classes (some '}') rest
    | none => .error .unopenedAlternates
  | ',' :: rest => parseOnto options draft.comma classes (some ',') rest
  | '\\' :: c :: rest => parseOnto options (draft.push (.literal c)) classes (some c) rest
  | ['\\'] => .error .danglingEscape
  | c :: rest =>
    if c = '[' && classes then
      match _h : classRanges {} (classNegation rest).2 with
      | .ok (ranges, after) =>
        parseOnto options (draft.push (.oneOf (classNegation rest).1 ranges)) classes (some ']')
          after
      | .error kind =>
        if options.openClassIsText && kind = .unclosedClass then
          parseOnto options (draft.push (.literal '[')) false (some '[') rest
        else .error kind
    else parseOnto options (draft.push (.literal c)) classes (some c) rest
termination_by cs.length
decreasing_by
  all_goals simp only [List.length_cons, List.length_drop]
  all_goals try omega
  have := length_of_classRanges _h
  have := length_classNegation rest
  omega

/-- Reads a pattern. -/
def parse (options : GlobOptions) (text : List Char) : Except GlobError Glob :=
  match parseOnto options {} true none text with
  | .error kind => .error ⟨text, kind⟩
  | .ok draft =>
    if draft.inGroup then .error ⟨text, .unclosedAlternates⟩
    else .ok { text, tokens := draft.tokens.reverse, stopsAtSlash := options.stopsAtSlash }

end Glob

end SourceAtlas
