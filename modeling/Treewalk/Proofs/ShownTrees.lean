import Treewalk.Proofs.RoundingIntervals
import Treewalk.Proofs.SoundTrees

/-! The text of a tree that comes from a source. No node of it is shown by a placeholder: lists start with
a parenthesis, strings with a quote, and the digits of a number are digits. -/

namespace Treewalk
/-- A text that starts with another byte is no placeholder. -/
private theorem unplaced {text : Bytes} (starts : text.head? ≠ some 0x3C) : text ∉ placeholders :=
  fun placeholder => starts (placeholder_start placeholder).1

private theorem numberLiteralText_shown (x : Float) : numberLiteralText x ∉ placeholders := by
  unfold numberLiteralText
  cases Decimal.Reading.ofFloat x with
  | nan => decide
  | infinite negative => cases negative <;> decide
  | finite negative magnitude =>
    cases negative with
    | true => exact unplaced (by simp [Decimal.signed, utf8])
    | false =>
      obtain ⟨byte, rest, same, _, most⟩ := (Decimal.positional_shows magnitude.shortest_lt).starts
      refine unplaced fun starts => ?_
      change magnitude.shortest.positional.head? = some 0x3C at starts
      rw [same, List.head?_cons, Option.some.injEq] at starts
      rw [starts] at most
      exact absurd most (by decide)

private theorem parenthesized_shown (head : Bytes) (parts : List Bytes) : parenthesized head parts ∉ placeholders :=
  unplaced (by simp [parenthesized, utf8])

private theorem Literal.text_shown {value : Literal} (known : value ≠ .foreign) : value.text ∉ placeholders := by
  cases value with
  | null => decide
  | bool value => cases value <;> decide
  | number value => exact numberLiteralText_shown value
  | string value => exact unplaced (by simp [Literal.text, Text.quote, utf8])
  | foreign => exact absurd rfl known

private theorem Expr.Sound.text_shown {expr : Expr} (sound : expr.Sound) : expr.text ∉ placeholders := by
  have spelled := sound.spelled
  cases expr <;> rw [Expr.text]
  case literal value pos => exact Literal.text_shown spelled
  case name token => exact spelled.2
  case hole => exact spelled.elim
  all_goals exact parenthesized_shown _ _

private theorem Stmt.Sound.text_shown {stmt : Stmt} (sound : stmt.Sound) : stmt.text ∉ placeholders := by
  cases stmt with
  | hole => exact absurd rfl sound.filled
  | breakLoop keyword | continueLoop keyword =>
    rw [Stmt.text]
    decide
  | declare name initial =>
    cases initial <;> rw [Stmt.text] <;> exact parenthesized_shown _ _
  | branch condition consequence alternative pos =>
    cases alternative <;> rw [Stmt.text] <;> exact parenthesized_shown _ _
  | loop condition body post pos =>
    cases post <;> rw [Stmt.text] <;> exact parenthesized_shown _ _
  | returnValue keyword result =>
    cases result with
    | none =>
      rw [Stmt.text]
      decide
    | some result =>
      rw [Stmt.text]
      exact parenthesized_shown _ _
  | expression value | print value | block body pos | function name parameters body =>
    rw [Stmt.text]
    exact parenthesized_shown _ _

inductive Expr.Shows : Expr → Bytes → Prop where
  | self (expr : Expr) : Shows expr expr.text
  | part {expr part : Expr} {text : Bytes} (inside : part ∈ expr.parts) (shown : part.Shows text) : Shows expr text

inductive Stmt.Shows : Stmt → Bytes → Prop where
  | self (stmt : Stmt) : Shows stmt stmt.text
  | expr {stmt : Stmt} {expr : Expr} {text : Bytes} (inside : expr ∈ stmt.exprs) (shown : expr.Shows text) : Shows stmt text
  | part {stmt : Stmt} {place : Place} {part : Place × Stmt} {text : Bytes} (inside : part ∈ stmt.parts place)
      (shown : part.2.Shows text) : Shows stmt text

theorem Expr.Sound.shows {expr : Expr} (sound : expr.Sound) {text : Bytes} (shown : expr.Shows text) :
    text ∉ placeholders := by
  induction shown with
  | self expr => exact sound.text_shown
  | part inside _ ih => exact ih (sound.parts _ inside)

/-- A sound tree is shown without placeholders. -/
theorem Stmt.Sound.shows {stmt : Stmt} (sound : stmt.Sound) {text : Bytes} (shown : stmt.Shows text) :
    text ∉ placeholders := by
  induction shown with
  | self stmt => exact sound.text_shown
  | expr inside shown => exact (sound.exprs _ inside).shows shown
  | part inside _ ih => exact ih (sound.parts _ _ inside)

end Treewalk
