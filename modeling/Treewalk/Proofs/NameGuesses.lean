import Treewalk.Proofs.EditDistance
import Treewalk.Proofs.VisibleNames

/-! The guess that comes with an undefined name. A visible name is eligible when the undefined name matches it, or when
it is shorter and matches the undefined name. The guess is an eligible name at the least edit distance; where several are,
one that the undefined name matches is preferred, and then the one that is listed first. What a match is, how distances are
measured and how ranks are sorted is the business of a library, of which only its laws are known. -/

namespace Treewalk
open Suggestion

theorem Suggestion.IsDistance.unique {edits other : Nat} {first second : List Char} (one : IsDistance edits first second)
    (two : IsDistance other first second) : edits = other :=
  Nat.le_antisymm (one.least two.reached) (two.least one.reached)

namespace FuzzySearch

/-- What is known of a library: it finds the candidates that match, in order, measures edit distances, and sorts by them. -/
structure Lawful (search : FuzzySearch) : Prop where
  finds : ∀ name candidates,
    (search.rankFindFold name candidates).map Rank.target = candidates.filter (search.matchFold name)
  distances : ∀ name candidates, ∀ rank ∈ search.rankFindFold name candidates,
    IsDistance rank.distance name.shown rank.target.shown
  measures : ∀ one two, IsDistance (search.levenshteinDistance one two) one.shown two.shown
  sorts : ∀ one two, search.less one two = true ↔ one.distance < two.distance

theorem standard_lawful : Lawful .standard where
  finds name candidates := by simp [standard, Function.comp_def]
  distances name candidates rank member := by
    obtain ⟨target, _, rfl⟩ := List.mem_map.mp member
    exact distance_isDistance name.shown target.shown
  measures one two := distance_isDistance one.shown two.shown
  sorts one two := by simp [standard]

variable (search : FuzzySearch)

def Matches (name candidate : Bytes) : Prop :=
  search.matchFold name candidate = true

/-- One of the names matches the other, which is shorter if it is the candidate. -/
def Eligible (name candidate : Bytes) : Prop :=
  search.Matches name candidate ∨ candidate.length < name.length ∧ search.Matches candidate name

structure Nearest (names : List Bytes) (name candidate : Bytes) : Prop where
  listed : candidate ∈ names
  eligible : search.Eligible name candidate
  least : ∀ other ∈ names, search.Eligible name other →
    search.levenshteinDistance name candidate ≤ search.levenshteinDistance name other

/-- Of the eligible names at the least distance, those come first that the name matches, and then those that are listed
earlier. -/
structure Favourite (names : List Bytes) (name candidate : Bytes) : Prop extends Nearest search names name candidate where
  preferred : ∀ other, search.Nearest names name other → other ≠ candidate →
    search.Matches name candidate ∧ ¬search.Matches name other ∨
      (search.Matches name candidate ↔ search.Matches name other) ∧ List.Sublist [candidate, other] names

def shorter (name : Bytes) (names : List Bytes) : List Bytes :=
  names.filter fun candidate => candidate.length < name.length && search.matchFold candidate name

def eligible (name : Bytes) (names : List Bytes) : List Bytes :=
  names.filter (search.matchFold name) ++ search.shorter name names

/-- What is suggested, if anything is. -/
def guess? (name : Bytes) (names : List Bytes) : Option Bytes :=
  if (search.suggest name names).isEmpty then none else some (search.suggest name names)

/-- The name whose rank comes first when they are sorted. -/
def nearest? (name : Bytes) (names : List Bytes) : Option Bytes :=
  (search.sort (search.ranks name names)).head?.map Rank.target

variable {search} {name guess : Bytes} {names : List Bytes}

theorem mem_eligible {candidate : Bytes} :
    candidate ∈ search.eligible name names ↔ candidate ∈ names ∧ search.Eligible name candidate := by
  simp only [eligible, shorter, List.mem_append, List.mem_filter, Bool.and_eq_true, decide_eq_true_eq, Eligible, Matches]
  exact and_or_left.symm

/-- What is chosen and not before the guess is listed behind it. -/
theorem listed_behind {chosen : Bytes → Bool} {other : Bytes} {front back : List Bytes}
    (split : names.filter chosen = front ++ guess :: back) (member : other ∈ names.filter chosen) (ahead : other ∉ front)
    (apart : other ≠ guess) : List.Sublist [guess, other] names := by
  have behind : other ∈ back := by
    rw [split] at member
    simpa [ahead, apart] using member
  have pair : List.Sublist [guess, other] (guess :: back) := (List.singleton_sublist.mpr behind).cons_cons guess
  calc
    List.Sublist [guess, other] (front ++ guess :: back) := pair.trans (List.sublist_append_right front _)
    List.Sublist _ names := split ▸ List.filter_sublist

/-- The names that match come first among the eligible ones, so a name is found there or behind all of them. -/
theorem eligible_split {front back : List Bytes} (split : search.eligible name names = front ++ guess :: back) :
    (∃ more, names.filter (search.matchFold name) = front ++ guess :: more) ∨
    ∃ between, front = names.filter (search.matchFold name) ++ between ∧
      search.shorter name names = between ++ guess :: back := by
  rcases List.append_eq_append_iff.mp split with ⟨between, before, behind⟩ | ⟨more, whole, rest⟩
  · exact .inr ⟨between, before, behind⟩
  · cases more with
    | nil => exact .inr ⟨[], by simpa using whole.symm, by simpa using rest.symm⟩
    | cons first more =>
      cases rest
      exact .inl ⟨more, whole⟩

theorem sort_eq_nil_iff {ranks : List Rank} : search.sort ranks = [] ↔ ranks = [] := by
  cases ranks with
  | nil => exact iff_of_true rfl rfl
  | cons rank others =>
    rw [sort, List.foldr_cons]
    cases others.foldr search.insert [] with
    | nil => simp [insert]
    | cons first more =>
      rw [insert]
      split <;> simp

namespace Lawful

variable (lawful : search.Lawful)
include lawful

theorem targets : (search.ranks name names).map Rank.target = search.eligible name names := by
  rw [FuzzySearch.ranks, List.map_append, lawful.finds, List.map_map]
  exact congrArg _ (List.map_id _)

theorem rank_distance {rank : Rank} (member : rank ∈ search.ranks name names) :
    rank.distance = search.levenshteinDistance name rank.target := by
  rcases List.mem_append.mp member with found | short
  · exact (lawful.distances name names rank found).unique (lawful.measures name rank.target)
  · obtain ⟨target, _, rfl⟩ := List.mem_map.mp short
    rfl

/-- Of the ranks at the least distance, the first one comes first when they are sorted. -/
theorem sort_split {ranks rest : List Rank} {best : Rank} (sorted : search.sort ranks = best :: rest) :
    ∃ front back, ranks = front ++ best :: back ∧ (∀ other ∈ front, best.distance < other.distance) ∧
      ∀ other ∈ ranks, best.distance ≤ other.distance := by
  induction ranks generalizing best rest with
  | nil => cases sorted
  | cons rank others ih =>
    rw [sort, List.foldr_cons] at sorted
    cases inner : search.sort others with
    | nil =>
      obtain rfl := sort_eq_nil_iff.mp inner
      cases sorted
      exact ⟨[], [], rfl, nofun, by simp⟩
    | cons first more =>
      obtain ⟨front, back, same, farther, least⟩ := ih inner
      rw [sort] at inner
      rw [inner, insert] at sorted
      split at sorted
      next before =>
        have nearer := (lawful.sorts first rank).mp before
        cases sorted
        refine ⟨rank :: front, back, by rw [same, List.cons_append], ?_, ?_⟩
        · exact List.forall_mem_cons.mpr ⟨nearer, farther⟩
        · exact List.forall_mem_cons.mpr ⟨Nat.le_of_lt nearer, least⟩
      next stays =>
        have near := Nat.le_of_not_lt (mt (lawful.sorts first rank).mpr stays)
        cases sorted
        refine ⟨[], others, rfl, nofun, ?_⟩
        exact List.forall_mem_cons.mpr ⟨Nat.le_refl _, fun other member => Nat.le_trans near (least other member)⟩

/-- Those before the guess are farther away, and none is nearer. -/
theorem nearest_split (found : search.nearest? name names = some guess) :
    ∃ front back, search.eligible name names = front ++ guess :: back ∧
      (∀ other ∈ front, search.levenshteinDistance name guess < search.levenshteinDistance name other) ∧
      ∀ other ∈ search.eligible name names,
        search.levenshteinDistance name guess ≤ search.levenshteinDistance name other := by
  obtain ⟨best, first, rfl⟩ := Option.map_eq_some_iff.mp found
  obtain ⟨rest, sorted⟩ := List.head?_eq_some_iff.mp first
  obtain ⟨front, back, split, farther, least⟩ := lawful.sort_split sorted
  have chosen : best ∈ search.ranks name names := split ▸ List.mem_append_cons_self
  rw [← lawful.targets, ← lawful.rank_distance chosen]
  refine ⟨front.map Rank.target, back.map Rank.target, by rw [split, List.map_append, List.map_cons], ?_, ?_⟩
  · intro other member
    obtain ⟨rank, before, rfl⟩ := List.mem_map.mp member
    have within : rank ∈ search.ranks name names := split ▸ List.mem_append_left _ before
    exact lawful.rank_distance within ▸ farther rank before
  · intro other member
    obtain ⟨rank, within, rfl⟩ := List.mem_map.mp member
    exact lawful.rank_distance within ▸ least rank within

theorem nearest_favourite (found : search.nearest? name names = some guess) : search.Favourite names name guess := by
  obtain ⟨front, back, split, farther, least⟩ := lawful.nearest_split found
  obtain ⟨listed, fitting⟩ : guess ∈ names ∧ search.Eligible name guess :=
    mem_eligible.mp (split ▸ List.mem_append_cons_self)
  refine ⟨⟨listed, fitting, fun other member choice => least other (mem_eligible.mpr ⟨member, choice⟩)⟩, ?_⟩
  intro other rival apart
  have itself : guess ∉ front := fun before => Nat.lt_irrefl _ (farther guess before)
  have ahead : other ∉ front := fun before => Nat.not_lt.mpr (rival.least guess listed fitting) (farther other before)
  have matched {candidate : Bytes} (member : candidate ∈ names) :
      candidate ∈ names.filter (search.matchFold name) ↔ search.Matches name candidate := by
    rw [List.mem_filter]
    exact and_iff_right member
  rcases eligible_split split with ⟨more, matching⟩ | ⟨between, before, shorter⟩
  · have found : search.Matches name guess := (matched listed).mp (matching ▸ List.mem_append_cons_self)
    by_cases also : search.Matches name other
    · exact .inr ⟨iff_of_true found also, listed_behind matching ((matched rival.listed).mpr also) ahead apart⟩
    · exact .inl ⟨found, also⟩
  · -- All names that match are before the guess and so farther away: neither it nor the other one is among them.
    have missed {candidate : Bytes} (member : candidate ∈ names) (absent : candidate ∉ front) :
        ¬search.Matches name candidate :=
      fun found => absent (before ▸ List.mem_append_left between ((matched member).mpr found))
    have unmatched := missed rival.listed ahead
    have member : other ∈ search.shorter name names := by
      obtain ⟨fewer, found⟩ := rival.eligible.resolve_left unmatched
      exact List.mem_filter.mpr ⟨rival.listed, Bool.and_eq_true_iff.mpr ⟨decide_eq_true fewer, found⟩⟩
    refine .inr ⟨iff_of_false (missed listed itself) unmatched, listed_behind shorter member ?_ apart⟩
    exact fun among => ahead (before ▸ List.mem_append_right _ among)

end Lawful

theorem sublist_pair_asymm {first second : Bytes} (nodup : names.Nodup) (one : List.Sublist [first, second] names) :
    ¬List.Sublist [second, first] names := by
  induction names with
  | nil => cases one
  | cons head rest ih =>
    obtain ⟨fresh, later⟩ := List.nodup_cons.mp nodup
    intro two
    cases one with
    | cons _ one =>
      cases two with
      | cons _ two => exact ih later one two
      | cons_cons _ two => exact fresh (one.subset (by simp))
    | cons_cons _ one =>
      cases two with
      | cons _ two => exact fresh (two.subset (by simp))
      | cons_cons _ two => exact fresh (List.singleton_sublist.mp two)

theorem Favourite.unique {other : Bytes} (nodup : names.Nodup) (one : search.Favourite names name guess)
    (two : search.Favourite names name other) : guess = other := by
  by_contra apart
  rcases one.preferred other two.toNearest (Ne.symm apart) with ⟨found, missed⟩ | ⟨same, before⟩ <;>
    rcases two.preferred guess one.toNearest apart with ⟨also, absent⟩ | ⟨alike, behind⟩
  · exact missed also
  · exact missed (alike.mpr found)
  · exact absent (same.mpr also)
  · exact sublist_pair_asymm nodup before behind

namespace Lawful

variable (lawful : search.Lawful)
include lawful

theorem nearest_eq_none_iff : search.nearest? name names = none ↔ ∀ candidate ∈ names, ¬search.Eligible name candidate := by
  have none : search.nearest? name names = none ↔ search.eligible name names = [] := by
    rw [nearest?, Option.map_eq_none_iff, List.head?_eq_none_iff, sort_eq_nil_iff, ← lawful.targets, List.map_eq_nil_iff]
  rw [none, List.eq_nil_iff_forall_not_mem]
  simp only [mem_eligible, not_and]

theorem nearest_iff_favourite (nodup : names.Nodup) :
    search.nearest? name names = some guess ↔ search.Favourite names name guess := by
  constructor
  · exact lawful.nearest_favourite
  · intro favourite
    cases found : search.nearest? name names with
    | none => exact absurd favourite.eligible (lawful.nearest_eq_none_iff.mp found guess favourite.listed)
    | some other => rw [(lawful.nearest_favourite found).unique nodup favourite]

/-- Among names that are spelled out, the nearest is suggested if it is near enough. -/
theorem guess?_eq_filter (named : [] ∉ names) :
    search.guess? name names =
      (search.nearest? name names).filter (search.levenshteinDistance name · ≤ name.length) := by
  cases sorted : search.sort (search.ranks name names) with
  | nil => simp [guess?, suggest, nearest?, sorted]
  | cons best rest =>
    have found : search.nearest? name names = some best.target := by rw [nearest?, sorted, List.head?_cons, Option.map_some]
    have spelled : best.target ≠ [] := fun empty => named (empty ▸ (lawful.nearest_favourite found).listed)
    obtain ⟨front, back, split, _⟩ := lawful.sort_split sorted
    have measured := lawful.rank_distance (split ▸ List.mem_append_cons_self)
    have suggested : search.suggest name names = if best.distance ≤ name.length then best.target else [] := by
      rw [suggest, sorted]
    rw [found, guess?, suggested, Option.filter_some, measured]
    by_cases near : search.levenshteinDistance name best.target ≤ name.length <;> simp [near, spelled]

theorem guess?_eq_some_iff (nodup : names.Nodup) (named : [] ∉ names) : search.guess? name names = some guess ↔
      search.Favourite names name guess ∧ search.levenshteinDistance name guess ≤ name.length := by
  rw [lawful.guess?_eq_filter named, Option.filter_eq_some_iff, lawful.nearest_iff_favourite nodup, decide_eq_true_eq]

theorem guess?_eq_none_iff (named : [] ∉ names) : search.guess? name names = none ↔
      (∀ candidate ∈ names, ¬search.Eligible name candidate) ∨
        ∃ candidate, search.Nearest names name candidate ∧ name.length < search.levenshteinDistance name candidate := by
  rw [lawful.guess?_eq_filter named, Option.filter_eq_none_iff]
  simp only [decide_eq_true_eq, Nat.not_le]
  constructor
  · intro far
    cases found : search.nearest? name names with
    | none => exact .inl (lawful.nearest_eq_none_iff.mp found)
    | some other => exact .inr ⟨other, (lawful.nearest_favourite found).toNearest, far other found⟩
  · intro dropped other found
    have favourite := lawful.nearest_favourite found
    rcases dropped with none | ⟨candidate, nearest, far⟩
    · exact absurd favourite.eligible (none other favourite.listed)
    · exact Nat.lt_of_lt_of_le far (nearest.least other favourite.listed favourite.eligible)

end Lawful
end FuzzySearch

namespace RuntimeError

variable {name : Token} {found : Option Bytes}

theorem hint_guess_iff {guess : Bytes} :
    hint ⟨name, .undefinedVariable found⟩ = .ofString "Did you mean '" ++ guess ++ .ofString "'?" ↔ found = some guess := by
  cases found with
  | none => simp [hint, Bytes.ofString, utf8]
  | some other => simp only [hint, List.append_left_inj, List.append_right_inj, Option.some.injEq]

theorem hint_nil_iff : hint ⟨name, .undefinedVariable found⟩ = [] ↔ found = none := by
  cases found with
  | none => simp [hint]
  | some other => simp [hint, Bytes.ofString, utf8]

end RuntimeError

namespace Heap

/-- Where no frame around binds a name, reading it and assigning to it fail with the same error. Its hint names the
favourite of the visible names, if it is near enough, which is not the name itself; without a hint no name is eligible,
or those at the least distance are too far away. The distance is the least number of edits. -/
theorem hint_names_favourite {search : FuzzySearch} (lawful : search.Lawful) {heap : Heap} (built : heap.Built)
    (frame : FrameId) (name : Token) (named : ∀ outer, heap.Around frame outer → heap.local? outer [] = none)
    (unbound : ∀ outer, heap.Around frame outer → heap.local? outer name.lexeme = none) :
    ∃ error : RuntimeError, heap.get frame name search = .error error ∧
      (∀ value, heap.assign frame name value search = .error error) ∧
      (∀ guess, error.hint = .ofString "Did you mean '" ++ guess ++ .ofString "'?" ↔
        search.Favourite (heap.names frame) name.lexeme guess ∧
          search.levenshteinDistance name.lexeme guess ≤ name.lexeme.length) ∧
      (∀ guess, error.hint = .ofString "Did you mean '" ++ guess ++ .ofString "'?" → guess ≠ name.lexeme) ∧
      (error.hint = [] ↔ (∀ candidate ∈ heap.names frame, ¬search.Eligible name.lexeme candidate) ∨
        ∃ candidate, search.Nearest (heap.names frame) name.lexeme candidate ∧
          name.lexeme.length < search.levenshteinDistance name.lexeme candidate) ∧
      ∀ candidate, IsDistance (search.levenshteinDistance name.lexeme candidate) name.lexeme.shown candidate.shown := by
  have linked := built.linked
  have absent {bound : Bytes} (nowhere : ∀ outer, heap.Around frame outer → heap.local? outer bound = none) :
      bound ∉ heap.names frame := by
    rw [linked.mem_names_iff]
    rintro ⟨outer, around, there⟩
    exact there (nowhere outer around)
  have missing : heap.find? frame name.lexeme = none := linked.find?_eq_none_iff.mpr unbound
  refine ⟨heap.undefinedError frame name search, ?_, fun value => ?_, fun guess => ?_, fun guess hinted => ?_, ?_, ?_⟩
  · unfold get
    rw [missing]
  · unfold assign owner
    rw [missing]
    rfl
  · rw [undefinedError, RuntimeError.hint_guess_iff]
    exact lawful.guess?_eq_some_iff (linked.names_nodup frame) (absent named)
  · rw [undefinedError, RuntimeError.hint_guess_iff] at hinted
    obtain ⟨favourite, _⟩ := (lawful.guess?_eq_some_iff (linked.names_nodup frame) (absent named)).mp hinted
    rintro rfl
    exact absent unbound favourite.listed
  · rw [undefinedError, RuntimeError.hint_nil_iff]
    exact lawful.guess?_eq_none_iff (absent named)
  · exact lawful.measures name.lexeme

theorem misspelledCount_hint :
    let heap := nested [.ofString "print", .ofString "count"] [.ofString "con"]
    let name : Token := { kind := .identifier, lexeme := .ofString "Cont" }
    FuzzySearch.standard.Lawful ∧ heap.Built ∧ (∀ outer, heap.Around 1 outer → heap.local? outer [] = none) ∧
      (∀ outer, heap.Around 1 outer → heap.local? outer name.lexeme = none) ∧
      ∃ error : RuntimeError, heap.get 1 name .standard = .error error ∧ error.hint = .ofString "Did you mean 'count'?" ∧
        FuzzySearch.standard.Favourite (heap.names 1) name.lexeme (.ofString "count") := by
  intro heap name
  have built : heap.Built :=
    .define (.alloc (.define (.define (.alloc .empty none) 0 _ _) 0 _ _) (some 0)) 1 _ _
  have nowhere (bound : Bytes) (missing : (heap.find? 1 bound).isNone = true) :
      ∀ outer, heap.Around 1 outer → heap.local? outer bound = none :=
    built.linked.find?_eq_none_iff.mp (Option.isNone_iff_eq_none.mp missing)
  have named := nowhere [] (by decide +kernel)
  have unbound := nowhere name.lexeme (by decide +kernel)
  have lawful := FuzzySearch.standard_lawful
  obtain ⟨error, fails, _, hints, _⟩ := hint_names_favourite lawful built 1 name named unbound
  have told : (match heap.get 1 name .standard with | .error error => error.hint | .ok _ => []) =
      .ofString "Did you mean 'count'?" := by
    decide +kernel
  rw [fails] at told
  have split : Bytes.ofString "Did you mean 'count'?" = .ofString "Did you mean '" ++ .ofString "count" ++ .ofString "'?" := by
    decide
  exact ⟨lawful, built, named, unbound, error, fails, told, ((hints _).mp (told.trans split)).1⟩

end Heap
end Treewalk
