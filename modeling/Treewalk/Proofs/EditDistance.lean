import Treewalk.Scope.Suggestion

/-! The distance between two texts is the least number of insertions, deletions and replacements that lead from one to
the other. A row holds it for one beginning of the first text and every beginning of the second; both grow at their
ends, so the beginnings are written backwards here. -/

namespace Treewalk.Suggestion

/-- So many edits turn the first text into the second. -/
inductive Edited : Nat → List Char → List Char → Prop where
  | done : Edited 0 [] []
  | keep {edits : Nat} {first second : List Char} (c : Char) (rest : Edited edits first second) :
      Edited edits (c :: first) (c :: second)
  | replace {edits : Nat} {first second : List Char} (c d : Char) (rest : Edited edits first second) :
      Edited (edits + 1) (c :: first) (d :: second)
  | delete {edits : Nat} {first second : List Char} (c : Char) (rest : Edited edits first second) :
      Edited (edits + 1) (c :: first) second
  | insert {edits : Nat} {first second : List Char} (d : Char) (rest : Edited edits first second) :
      Edited (edits + 1) first (d :: second)

namespace Edited

variable {edits more : Nat} {first second : List Char}

theorem append {third fourth : List Char} (front : Edited edits first second) (back : Edited more third fourth) :
    Edited (edits + more) (first ++ third) (second ++ fourth) := by
  induction front with
  | done => simpa using back
  | keep c _ ih => exact .keep c ih
  | replace c d _ ih => exact Nat.succ_add_eq_add_succ _ more ▸ .replace c d ih
  | delete c _ ih => exact Nat.succ_add_eq_add_succ _ more ▸ .delete c ih
  | insert d _ ih => exact Nat.succ_add_eq_add_succ _ more ▸ .insert d ih

theorem reverse (edited : Edited edits first second) : Edited edits first.reverse second.reverse := by
  induction edited with
  | done => exact .done
  | keep c _ ih => simpa using ih.append (.keep c .done)
  | replace c d _ ih => simpa using ih.append (.replace c d .done)
  | delete c _ ih => simpa using ih.append (.delete c .done)
  | insert d _ ih => simpa using ih.append (.insert d .done)

theorem nil_left (edited : Edited edits [] second) : edits = second.length := by
  induction second generalizing edits with
  | nil =>
    cases edited
    rfl
  | cons d rest ih =>
    cases edited with
    | insert _ rest => rw [ih rest, List.length_cons]

theorem nil_right (edited : Edited edits first []) : edits = first.length := by
  induction first generalizing edits with
  | nil =>
    cases edited
    rfl
  | cons c rest ih =>
    cases edited with
    | delete _ rest => rw [ih rest, List.length_cons]

end Edited

structure IsDistance (edits : Nat) (first second : List Char) : Prop where
  reached : Edited edits first second
  least : ∀ {other : Nat}, Edited other first second → edits ≤ other

namespace IsDistance

variable {left up diagonal edits : Nat} {first second : List Char} {c d : Char}

theorem nil_left (second : List Char) : IsDistance second.length [] second where
  reached := by
    induction second with
    | nil => exact .done
    | cons d rest ih => exact .insert d ih
  least edited := Nat.le_of_eq edited.nil_left.symm

theorem nil_right (first : List Char) : IsDistance first.length first [] where
  reached := by
    induction first with
    | nil => exact .done
    | cons c rest ih => exact .delete c ih
  least edited := Nat.le_of_eq edited.nil_right.symm

theorem reverse (distance : IsDistance edits first.reverse second.reverse) : IsDistance edits first second where
  reached := by simpa using distance.reached.reverse
  least edited := distance.least edited.reverse

/-- The text behind the last edit was reached with one edit less, or with as many if a character was kept. -/
theorem cons (inserted : IsDistance left (c :: first) second) (deleted : IsDistance up first (d :: second))
    (aligned : IsDistance diagonal first second) :
    IsDistance (min (min left up + 1) (if c == d then diagonal else diagonal + 1)) (c :: first) (d :: second) where
  reached := by
    have either (one two : Nat) : min one two = one ∨ min one two = two := by omega
    rcases either (min left up + 1) (if c == d then diagonal else diagonal + 1) with shorter | shorter
    · rw [shorter]
      rcases either left up with least | least
      · rw [least]
        exact .insert d inserted.reached
      · rw [least]
        exact .delete c deleted.reached
    · rw [shorter]
      split
      next same => exact beq_iff_eq.mp same ▸ .keep c aligned.reached
      next => exact .replace c d aligned.reached
  least edited := by
    cases edited with
    | keep _ rest =>
      have least := aligned.least rest
      rw [if_pos (beq_self_eq_true c)]
      omega
    | replace _ _ rest =>
      have least := aligned.least rest
      split <;> omega
    | delete _ rest =>
      have least := deleted.least rest
      omega
    | insert _ rest =>
      have least := inserted.least rest
      omega

end IsDistance

inductive IsRow (text : List Char) : (passed rest : List Char) → List Nat → Prop where
  | last {passed : List Char} {edits : Nat} (here : IsDistance edits text passed) : IsRow text passed [] [edits]
  | next {passed rest : List Char} {d : Char} {edits : Nat} {row : List Nat} (here : IsDistance edits text passed)
      (behind : IsRow text (d :: passed) rest row) : IsRow text passed (d :: rest) (edits :: row)

namespace IsRow

variable {text passed rest : List Char} {row above : List Nat} {left diagonal : Nat}

/-- Without a text, each character behind is one more insertion. -/
theorem first (passed rest : List Char) : IsRow [] passed rest (List.range' passed.length (rest.length + 1)) := by
  induction rest generalizing passed with
  | nil => exact .last (.nil_left passed)
  | cons d rest ih => exact .next (.nil_left passed) (ih (d :: passed))

theorem head (filled : IsRow text passed rest (left :: row)) : IsDistance left text passed := by
  cases filled with
  | last here => exact here
  | next here _ => exact here

theorem fill (c : Char) (filled : IsRow text passed rest (diagonal :: above)) (corner : IsDistance left (c :: text) passed) :
    IsRow (c :: text) passed rest (nextRow.fill c left diagonal rest above) := by
  -- Along the second text: what is above becomes the diagonal, and what was found here is on the left.
  induction rest generalizing passed left diagonal above with
  | nil => exact .last corner
  | cons d rest ih =>
    cases filled with
    | next here behind =>
      cases above with
      | nil => cases behind
      | cons up above => exact .next corner (ih behind (.cons corner behind.head here))

theorem nextRow (c : Char) (filled : IsRow text [] rest row) : IsRow (c :: text) [] rest (nextRow c rest row) := by
  cases row with
  | nil => cases filled
  | cons corner above =>
    have deletions : corner = text.length := filled.head.reached.nil_right
    refine filled.fill c ?_
    rw [deletions]
    exact .nil_right (c :: text)

theorem foldl (more : List Char) (filled : IsRow text [] rest row) :
    IsRow (more.reverse ++ text) [] rest (more.foldl (fun row c => Suggestion.nextRow c rest row) row) := by
  induction more generalizing text row with
  | nil => exact filled
  | cons c more ih => simpa using ih (filled.nextRow c)

theorem getLastD (filled : IsRow text passed rest row) : IsDistance (row.getLastD 0) text (rest.reverse ++ passed) := by
  induction filled with
  | last here => exact here
  | @next passed rest d edits row here behind ih =>
    cases row with
    | nil => cases behind
    | cons up above => simpa using ih

end IsRow

theorem distance_isDistance (first second : List Char) : IsDistance (distance first second) first second := by
  refine .reverse ?_
  have start : IsRow [] [] second (List.range (second.length + 1)) := by
    rw [List.range_eq_range']
    exact .first [] second
  have filled := (start.foldl first).getLastD
  rw [List.append_nil, List.append_nil] at filled
  exact filled

end Treewalk.Suggestion
