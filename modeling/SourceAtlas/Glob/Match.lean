import SourceAtlas.Glob.Basic
import SourceAtlas.Text.Affix

/-!
# Matching paths against patterns

A path is matched as the bytes of its text. `GlobToken.rests` lists what may be left of the bytes
after a part of a pattern has taken some from the front; a pattern matches if nothing needs to be
left.
-/

namespace SourceAtlas

/-- The byte that divides the segments of a path. -/
def slash : UInt8 := 47

/-- What is left after every initial stretch of bytes that satisfy a condition. -/
def restsWhile (p : UInt8 → Bool) : List UInt8 → List (List UInt8)
  | [] => [[]]
  | b :: bs => (b :: bs) :: if p b then restsWhile p bs else []

/-- What is left after every slash. -/
def restsAfterSlash : List UInt8 → List (List UInt8)
  | [] => []
  | b :: bs => if b = slash then bs :: restsAfterSlash bs else restsAfterSlash bs

/-- The ranges of bytes that a range of characters stands for: the last byte of the lower end is
joined to the first byte of the upper end, and the other bytes stand alone. -/
def byteRanges (low high : Char) : List (UInt8 × UInt8) :=
  let alone (bs : List UInt8) : List (UInt8 × UInt8) := bs.map fun b => (b, b)
  let lows := String.utf8EncodeChar low
  let highs := String.utf8EncodeChar high
  if low = high then alone lows
  else match lows.getLast?, highs with
    | some l, h :: others => alone lows.dropLast ++ [(l, h)] ++ alone others
    | _, _ => []

/-- Whether a byte lies in one of the ranges of a class. -/
def inClass (ranges : List (Char × Char)) (b : UInt8) : Bool :=
  ranges.any fun (low, high) => (byteRanges low high).any fun (l, h) => l ≤ b && b ≤ h

mutual

/-- Whether a part of a pattern is only alternatives that are all empty. -/
def GlobToken.isVoid : GlobToken → Bool
  | .alternates branches => allVoid branches
  | _ => false

/-- Whether a branch has only parts that are void. -/
def branchVoid : List GlobToken → Bool
  | [] => true
  | token :: tokens => token.isVoid && branchVoid tokens

/-- Whether all branches are void. -/
def allVoid : List (List GlobToken) → Bool
  | [] => true
  | branch :: branches => branchVoid branch && allVoid branches

end

mutual

/-- What may be left of the bytes after a part of a pattern. -/
def GlobToken.rests (stopsAtSlash : Bool) : GlobToken → List UInt8 → List (List UInt8)
  | .literal c, bs => ((String.utf8EncodeChar c).isPrefixOf? bs).toList
  | .any, bs =>
    match bs with
    | b :: rest => if stopsAtSlash && b == slash then [] else [rest]
    | [] => []
  | .star, bs => restsWhile (fun b => !(stopsAtSlash && b == slash)) bs
  | .leadingDirs, bs => bs :: restsAfterSlash bs
  | .trailingDirs, bs =>
    match bs with
    | b :: rest => if b = slash then restsWhile (fun _ => true) rest else []
    | [] => []
  | .innerDirs, bs =>
    match bs with
    | b :: rest => if b = slash then rest :: restsAfterSlash rest else []
    | [] => []
  | .oneOf negated ranges, bs =>
    match bs with
    | b :: rest => if inClass ranges b != negated then [rest] else []
    | [] => []
  | .alternates branches, bs =>
    if allVoid branches then [bs] else branchRests stopsAtSlash branches bs

/-- What may be left after a sequence of parts, given what may be left before it. -/
def sequenceRests (stopsAtSlash : Bool) :
    List GlobToken → List (List UInt8) → List (List UInt8)
  | [], rests => rests
  | token :: tokens, rests =>
    sequenceRests stopsAtSlash tokens (rests.flatMap (token.rests stopsAtSlash)).eraseDups

/-- What may be left after one of several branches. Void branches do not count. -/
def branchRests (stopsAtSlash : Bool) : List (List GlobToken) → List UInt8 → List (List UInt8)
  | [], _ => []
  | branch :: branches, bs =>
    (if branchVoid branch then [] else sequenceRests stopsAtSlash branch [bs]) ++
      branchRests stopsAtSlash branches bs

end

namespace Glob

/-- The character that a part of a pattern stands for. -/
def literal? : GlobToken → Option Char
  | .literal c => some c
  | _ => none

/-- Whether parts of a pattern are plain text. -/
def isPlain (tokens : List GlobToken) : Bool := tokens.all fun token => (literal? token).isSome

/-- Whether a pattern is a plain text or a plain ending, which is compared with the whole path. -/
def comparesPath (glob : Glob) : Bool :=
  match glob.tokens with
  | .leadingDirs :: .star :: tokens => !glob.stopsAtSlash && isPlain tokens && tokens.length ≠ 1
  | .leadingDirs :: tokens =>
    isPlain tokens && tokens.any fun token => literal? token = some '/'
  | .star :: tokens => !glob.stopsAtSlash && isPlain tokens && tokens.length ≠ 1
  | tokens => isPlain tokens

/-- Whether a pattern can match at all. A pattern that ends in a dot, unless it is compared with the
whole path, is compared with the file's name or ending, and a path that ends in a dot has none. -/
def canMatch (glob : Glob) : Bool :=
  glob.comparesPath || glob.tokens.getLast?.bind literal? ≠ some '.'

/-- Whether a pattern matches the bytes of a path. Leading directories alone match everything. -/
def matchesBytes (glob : Glob) (path : List UInt8) : Bool :=
  match glob.tokens with
  | [.leadingDirs] => true
  | tokens => glob.canMatch && (sequenceRests glob.stopsAtSlash tokens [path]).contains []

/-- Whether a pattern matches a path. -/
def matchesPath (glob : Glob) (path : List Char) : Bool := glob.matchesBytes (Text.bytes path)

end Glob

end SourceAtlas
