import Treewalk.Scope.Folding
import Treewalk.Scope.Search

/-! A search for similar names. A name matches those from which it can be had by leaving letters
out, whatever their case. -/

namespace Treewalk
namespace Suggestion

/-- Can `short` be had from `long` by leaving characters out? -/
def isSubsequence : (short long : List Char) → Bool
  | [], _ => true
  | _ :: _, [] => false
  | a :: short, b :: long =>
    if a == b then isSubsequence short long else isSubsequence (a :: short) long

/-- Does `name` fit into `candidate`, whatever the case of letters? -/
def fits (name candidate : Bytes) : Bool :=
  let short := Folding.folded name
  let long := Folding.folded candidate
  short.length ≤ long.length && isSubsequence short.shown long.shown

/-- The next row of distances: from `row`, the distances from a beginning of the first text to every
beginning of the second, to those from the beginning that is longer by `c`. -/
def nextRow (c : Char) (second : List Char) (row : List Nat) : List Nat :=
  match row with
  | [] => []
  | corner :: above => fill (corner + 1) corner second above
where
  fill (left diagonal : Nat) : List Char → List Nat → List Nat
    | d :: rest, up :: above =>
      let best := min (min left up + 1) (if c == d then diagonal else diagonal + 1)
      left :: fill best up rest above
    | _, _ => [left]

/-- The least number of insertions, deletions and replacements that lead from one text to the
other. -/
def distance (first second : List Char) : Nat :=
  let row := first.foldl (fun row c => nextRow c second row) (List.range (second.length + 1))
  row.getLastD 0

def rank (name candidate : Bytes) : Nat :=
  distance name.shown candidate.shown

end Suggestion

/-- The search that the program runs with. -/
def FuzzySearch.standard : FuzzySearch where
  matchFold := Suggestion.fits
  rankFindFold name candidates :=
    (candidates.filter (Suggestion.fits name ·)).map fun target =>
      ⟨name, target, Suggestion.rank name target⟩
  levenshteinDistance := Suggestion.rank
  less one two := one.distance < two.distance

end Treewalk
