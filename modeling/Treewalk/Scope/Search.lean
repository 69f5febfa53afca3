import Treewalk.Text.Glyph

/-! Guesses at misspelled names. The search for similar names is left to a library. -/

namespace Treewalk

/-- A name that was found for another one, and how far it is from it. -/
structure Rank where
  source : Bytes
  target : Bytes
  distance : Nat
  deriving DecidableEq, Repr

/-- A library that searches for names, whatever the case of their letters. -/
structure FuzzySearch where
  /-- Does the first name match the second? -/
  matchFold : Bytes → Bytes → Bool
  /-- The candidates that a name matches. -/
  rankFindFold : Bytes → List Bytes → List Rank
  levenshteinDistance : Bytes → Bytes → Nat
  /-- Does the first rank come before the second when ranks are sorted? -/
  less : Rank → Rank → Bool

namespace FuzzySearch

/-- The eligible candidates: those that `name` matches, then the shorter ones that match it. -/
def ranks (search : FuzzySearch) (name : Bytes) (candidates : List Bytes) : List Rank :=
  let shorter := candidates.filter fun candidate =>
    candidate.length < name.length && search.matchFold candidate name
  search.rankFindFold name candidates ++
    shorter.map fun target => ⟨name, target, search.levenshteinDistance name target⟩

/-- Puts a rank in front of the first one that does not come before it. -/
def insert (search : FuzzySearch) (rank : Rank) : List Rank → List Rank
  | [] => [rank]
  | other :: rest =>
    if search.less other rank then other :: search.insert rank rest else rank :: other :: rest

/-- Ranks of which neither comes before the other stay in order. -/
def sort (search : FuzzySearch) (ranks : List Rank) : List Rank :=
  ranks.foldr search.insert []

/-- The candidate closest to `name`; an empty one when none is near enough. -/
def suggest (search : FuzzySearch) (name : Bytes) (candidates : List Bytes) : Bytes :=
  match search.sort (search.ranks name candidates) with
  | [] => []
  | best :: _ => if best.distance ≤ name.length then best.target else []

end FuzzySearch
end Treewalk
