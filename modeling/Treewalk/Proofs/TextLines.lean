import Mathlib.Data.List.TakeWhile
import Treewalk.Machine

/-! The lines of a text, and how an input gives them out. -/

namespace Treewalk

namespace Bytes

/-- The lines of a text, each with the newline at its end; what is left behind the last newline is a line, too. -/
def lines : Bytes → List Bytes
  | [] => []
  | byte :: rest =>
    if byte = 0x0A then [byte] :: lines rest
    else
      match lines rest with
      | [] => [[byte]]
      | line :: others => (byte :: line) :: others

theorem lines_newline {line : Bytes} (inside : 0x0A ∉ line) (rest : Bytes) :
    lines (line ++ 0x0A :: rest) = (line ++ newline) :: lines rest := by
  induction line with
  | nil => rfl
  | cons byte line ih =>
    obtain ⟨here, later⟩ := List.ne_and_not_mem_of_not_mem_cons inside
    rw [List.cons_append, lines, if_neg (Ne.symm here), ih later]
    rfl

theorem lines_unended {line : Bytes} (inside : 0x0A ∉ line) (held : line ≠ []) : lines line = [line] := by
  induction line with
  | nil => exact absurd rfl held
  | cons byte line ih =>
    obtain ⟨here, later⟩ := List.ne_and_not_mem_of_not_mem_cons inside
    rw [lines, if_neg (Ne.symm here)]
    cases line with
    | nil => rfl
    | cons next line => rw [ih later (List.cons_ne_nil _ _)]

example : lines (.ofString "a\r\n\nb") = [.ofString "a\r\n", .ofString "\n", .ofString "b"] := by decide +kernel

end Bytes

namespace Input

/-- The lines that are still to be read, without their ends. -/
def lines (input : Input) : List Bytes :=
  (Bytes.lines input.rest).map (Bytes.trimEnd [0x0D, 0x0A])

private theorem newline_notMem (text : Bytes) : 0x0A ∉ text.takeWhile (· != 0x0A) := by
  intro member
  simpa using List.mem_takeWhile_imp member

/-- What is read ends at the first newline, if there is one. -/
theorem readLine_cases {input : Input} (whole : input.ending = .always none) :
    (∃ line rest, 0x0A ∉ line ∧ input.rest = line ++ 0x0A :: rest ∧
      input.readLine = (.line (line ++ Bytes.newline), { input with rest })) ∨
    0x0A ∉ input.rest ∧ input.readLine = (.last input.rest, { input with rest := [] }) := by
  have parts := List.takeWhile_append_dropWhile (p := (· != 0x0A)) (l := input.rest)
  have inside := newline_notMem input.rest
  unfold readLine
  dsimp only
  split
  next newline rest ends =>
    have same : newline = 0x0A := by
      have stops := List.head?_dropWhile_not (· != 0x0A) input.rest
      simpa [ends] using stops
    subst same
    rw [ends] at parts
    exact .inl ⟨_, rest, inside, parts.symm, rfl⟩
  next ends =>
    rw [ends, List.append_nil] at parts
    rw [parts] at inside
    exact .inr ⟨inside, by simp [whole, parts, Ending.error?, Ending.behind]⟩

/-- The line that is read is the first of those that were left. -/
theorem readLine_lines {input : Input} (whole : input.ending = .always none) :
    input.lines = input.readLine.1.line?.toList ++ input.readLine.2.lines ∧ input.readLine.2.ending = .always none ∧
      (input.readLine.1.line? = none → input.rest = []) := by
  rcases readLine_cases whole with ⟨line, rest, inside, parts, reads⟩ | ⟨inside, reads⟩
  · rw [reads, lines, parts, Bytes.lines_newline inside]
    exact ⟨rfl, whole, nofun⟩
  · rw [reads, lines]
    by_cases held : input.rest = []
    · rw [held]
      exact ⟨rfl, whole, fun _ => rfl⟩
    · have read : (LineRead.last input.rest).line? = some (input.rest.trimEnd [0x0D, 0x0A]) := by
        cases same : input.rest with
        | nil => exact absurd same held
        | cons byte rest => rfl
      rw [Bytes.lines_unended inside held, read]
      exact ⟨rfl, whole, nofun⟩

end Input
end Treewalk
