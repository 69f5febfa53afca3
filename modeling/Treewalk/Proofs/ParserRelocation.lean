import Treewalk.Proofs.ParserLikeness
import Treewalk.Proofs.Relocation

/-! The parser does not look at places: tokens at other places give the same trees at those other
places. The same comparison shows that more steps change nothing, that a parser leaves an end of
what it was given, and that it never fails without saying why. -/

namespace Treewalk.Parser

/-- The outcome of a reading beside the one for moved tokens, which may have had more steps. -/
def Relocated {α β : Type} (move : Position → Position) (values : α → β → Prop) (tokens : List Token) :
    Parsed α → Parsed β → Prop
  | .done value errors rest, other =>
    rest <:+ tokens ∧ ∃ moved, values value moved ∧
      other = .done moved (errors.map (Diagnostic.relocate move)) (rest.map (Token.relocate move))
  | .failed errors rest, other =>
    errors ≠ [] ∧ rest <:+ tokens ∧
      other = .failed (errors.map (Diagnostic.relocate move)) (rest.map (Token.relocate move))
  | .exhausted, _ => True

def relocation (move : Position → Position) : Likeness where
  token token moved := moved = token.relocate move
  expr expr moved := moved = expr.relocate move
  stmt stmt moved := moved = stmt.relocate move
  parser values first second := ∀ last tokens,
    Relocated move values tokens (first last tokens)
      (second (last.relocate move) (tokens.map (Token.relocate move)))

variable {move : Position → Position}

private theorem eq_map_of_forall₂ {α β : Type} {f : α → β} {as : List α} {bs : List β}
    (each : List.Forall₂ (fun a b => b = f a) as bs) : bs = as.map f := by
  induction each with
  | nil => rfl
  | cons same _ ih => rw [same, ih, List.map_cons]

private theorem eq_map_of_rel {α β : Type} {f : α → β} {a : Option α} {b : Option β}
    (each : Option.Rel (fun a b => b = f a) a b) : b = a.map f := by
  cases each with
  | none => rfl
  | some same => rw [same, Option.map_some]

theorem relocation_keepsTrees (move : Position → Position) : (relocation move).KeepsTrees where
  kind := by rintro t _ rfl; rfl
  lexeme := by rintro t _ rfl; rfl
  operatorAt := by rintro t _ kind rfl; rfl
  constant := by rintro t _ value _ rfl; rfl
  spelled := by rintro t _ rfl; rfl
  name := by rintro t _ rfl; rfl
  target := by
    rintro e _ rfl
    cases e with
    | name t => exact .inl ⟨t, _, rfl, rfl, rfl⟩
    | _ => exact .inr ⟨fun _ same => Expr.noConfusion same, fun _ same => Expr.noConfusion same⟩
  assign := by rintro t _ e _ rfl rfl; rfl
  ternary := by rintro c _ e _ g _ rfl rfl rfl; rfl
  logical := by rintro e _ t _ g _ rfl rfl rfl; rfl
  binary := by rintro e _ t _ g _ rfl rfl _ rfl; rfl
  unary := by rintro t _ e _ rfl _ rfl; rfl
  group := by rintro e _ rfl; rfl
  call := by
    rintro e _ t _ es fs rfl rfl each
    rw [eq_map_of_forall₂ each]
    simp [relocation, Expr.relocate]
  expression := by rintro e _ rfl; rfl
  declare := by
    rintro t _ e f rfl each
    rw [eq_map_of_rel each]
    rfl
  block := by
    rintro t _ ss rs rfl each
    rw [eq_map_of_forall₂ each]
    simp [relocation, Stmt.relocate, Token.relocate]
  branch := by
    rintro e _ s _ a b t _ rfl rfl each rfl
    rw [eq_map_of_rel each]
    simp [relocation, Stmt.relocate_branch, Token.relocate]
  loop := by
    rintro e _ s _ a b t _ rfl rfl each rfl
    rw [eq_map_of_rel each]
    simp [relocation, Stmt.relocate_loop, Token.relocate]
  breakLoop := by rintro t _ rfl; rfl
  continueLoop := by rintro t _ rfl; rfl
  function := by
    rintro t _ ts us ss rs rfl each body
    rw [eq_map_of_forall₂ each, eq_map_of_forall₂ body]
    simp [relocation, Stmt.relocate]
  returnValue := by
    rintro t _ e f rfl each
    rw [eq_map_of_rel each]
    rfl

/-- Errors reported before are moved along with the later ones. -/
private theorem Relocated.reportedAfter {α β : Type} {values : α → β → Prop} {tokens rest : List Token}
    (shorter : rest <:+ tokens) (errors : List Diagnostic) {first : Parsed α} {second : Parsed β}
    (alike : Relocated move values rest first second) :
    Relocated move values tokens (first.reportedAfter errors)
      (second.reportedAfter (errors.map (Diagnostic.relocate move))) := by
  cases first with
  | exhausted => trivial
  | done value later remaining =>
    obtain ⟨within, moved, same, rfl⟩ := alike
    exact ⟨within.trans shorter, moved, same, by simp [Parsed.reportedAfter]⟩
  | failed later remaining =>
    obtain ⟨some, within, rfl⟩ := alike
    exact ⟨by simp [some], within.trans shorter, by simp [Parsed.reportedAfter]⟩

private theorem relocation_bind {α β γ δ : Type} {firsts : α → β → Prop} {values : γ → δ → Prop}
    {p : Parser α} {q : Parser β} {f : α → Parser γ} {g : β → Parser δ}
    (alike : (relocation move).parser firsts p q)
    (next : ∀ v w, firsts v w → (relocation move).parser values (f v) (g w)) :
    (relocation move).parser values (p >>= f) (q >>= g) := by
  intro last tokens
  have first := alike last tokens
  change Relocated move values tokens (andThen p f last tokens) (andThen q g _ _)
  unfold andThen
  cases outcome : p last tokens with
  | exhausted => trivial
  | failed errors rest =>
    rw [outcome] at first
    obtain ⟨some, shorter, same⟩ := first
    rw [same]
    exact ⟨some, shorter, rfl⟩
  | done value errors rest =>
    rw [outcome] at first
    obtain ⟨shorter, moved, related, same⟩ := first
    rw [same]
    exact (next value moved related last rest).reportedAfter shorter errors

theorem resume_suffix (nested : Bool) (previous : Token) (tokens : List Token) :
    resume nested previous tokens <:+ tokens := by
  induction tokens generalizing previous with
  | nil => exact List.suffix_rfl
  | cons token rest ih =>
    unfold resume
    split
    · exact List.suffix_rfl
    · exact (ih token).trans (List.suffix_cons token rest)

theorem synchronize_suffix (nested : Bool) (tokens : List Token) : synchronize nested tokens <:+ tokens := by
  cases tokens with
  | nil => exact List.suffix_rfl
  | cons token rest =>
    rw [synchronize]
    split
    · exact List.suffix_rfl
    · exact (resume_suffix nested token rest).trans (List.suffix_cons token rest)

private theorem resume_relocate (nested : Bool) (previous : Token) (tokens : List Token) :
    resume nested (previous.relocate move) (tokens.map (Token.relocate move)) =
      (resume nested previous tokens).map (Token.relocate move) := by
  induction tokens generalizing previous with
  | nil => rfl
  | cons token rest ih =>
    rw [List.map_cons, resume, resume, ih token, apply_ite (List.map (Token.relocate move)), List.map_cons]
    rfl

private theorem synchronize_relocate (nested : Bool) (tokens : List Token) :
    synchronize nested (tokens.map (Token.relocate move)) =
      (synchronize nested tokens).map (Token.relocate move) := by
  cases tokens with
  | nil => rfl
  | cons token rest =>
    rw [List.map_cons, synchronize, synchronize, resume_relocate nested token rest,
      apply_ite (List.map (Token.relocate move)), List.map_cons]
    rfl

theorem dropBraces_suffix (depth : Nat) (tokens : List Token) : dropBraces depth tokens <:+ tokens := by
  fun_induction dropBraces depth tokens with
  | case1 tokens => exact List.suffix_rfl
  | case2 depth => exact List.suffix_rfl
  | case3 depth token rest _ ih => exact ih.trans (List.suffix_cons token rest)
  | case4 depth token rest _ _ ih => exact ih.trans (List.suffix_cons token rest)
  | case5 depth token rest _ _ ih => exact ih.trans (List.suffix_cons token rest)

private theorem dropBraces_relocate (depth : Nat) (tokens : List Token) :
    dropBraces depth (tokens.map (Token.relocate move)) = (dropBraces depth tokens).map (Token.relocate move) := by
  fun_induction dropBraces depth tokens with
  | case1 tokens => simp [dropBraces]
  | case2 depth => rfl
  | case3 depth token rest opens ih => simpa [dropBraces, opens] using ih
  | case4 depth token rest opens closes ih => simpa [dropBraces, opens, closes] using ih
  | case5 depth token rest opens closes ih => simpa [dropBraces, opens, closes] using ih

theorem relocation_keepsParsers (move : Position → Position) : (relocation move).KeepsParsers where
  succeed related := fun _ _ => ⟨List.suffix_rfl, _, related, rfl⟩
  bind := relocation_bind
  outOfSteps := fun _ _ => trivial
  peek := by
    intro last tokens
    refine ⟨List.suffix_rfl, _, rfl, ?_⟩
    cases tokens <;> rfl
  nextIs := by
    intro kinds last tokens
    cases tokens <;> exact ⟨List.suffix_rfl, _, rfl, rfl⟩
  atEnd := by
    intro last tokens
    cases tokens <;> exact ⟨List.suffix_rfl, _, rfl, rfl⟩
  accept := by
    intro kinds last tokens
    cases tokens with
    | nil => exact ⟨List.suffix_rfl, _, .none, rfl⟩
    | cons token rest =>
      simp only [accept, List.map_cons, Token.relocate_kind]
      split
      next taken => exact ⟨List.suffix_cons token rest, _, .some ⟨rfl, List.contains_iff_mem.mp taken⟩, rfl⟩
      next => exact ⟨List.suffix_rfl, _, .none, rfl⟩
  report := by
    rintro t _ defect rfl last tokens
    exact ⟨List.suffix_rfl, _, rfl, rfl⟩
  fail := by
    rintro _ _ _ t _ defect rfl last tokens
    exact ⟨by simp, List.suffix_rfl, rfl⟩
  skipBraces := by
    intro last tokens
    exact ⟨dropBraces_suffix 1 tokens, _, rfl, by rw [← dropBraces_relocate]; rfl⟩
  recover := by
    intro nested p q alike last tokens
    have outcomes := alike last tokens
    unfold recover
    cases outcome : p last tokens with
    | exhausted => trivial
    | done value errors rest =>
      rw [outcome] at outcomes
      obtain ⟨shorter, moved, related, same⟩ := outcomes
      rw [same]
      exact ⟨shorter, moved, related, rfl⟩
    | failed errors rest =>
      rw [outcome] at outcomes
      obtain ⟨_, shorter, same⟩ := outcomes
      rw [same]
      exact ⟨(synchronize_suffix nested rest).trans shorter, none, .none, by rw [← synchronize_relocate]⟩

theorem relocation_lawful (move : Position → Position) : (relocation move).Lawful :=
  { relocation_keepsTrees move, relocation_keepsParsers move with }

/-- Moving the tokens moves the trees and the errors, and does nothing else. -/
theorem declarations_relocate (nested : Bool) {steps more : Nat} (enough : steps ≤ more) (last : Token)
    (tokens : List Token) (move : Position → Position) :
    Relocated move (fun stmts moved => moved = stmts.map (Stmt.relocate move)) tokens
      (declarations nested steps last tokens)
      (declarations nested more (last.relocate move) (tokens.map (Token.relocate move))) := by
  have alike := (statementsAlike (relocation_lawful move) enough).declarations nested last tokens
  cases outcome : declarations nested steps last tokens with
  | exhausted => trivial
  | failed errors rest =>
    rw [outcome] at alike
    exact alike
  | done stmts errors rest =>
    rw [outcome] at alike
    obtain ⟨shorter, moved, each, same⟩ := alike
    exact ⟨shorter, moved, eq_map_of_forall₂ each, same⟩

/-- Where nothing is moved, an outcome stays what it is. -/
private theorem Relocated.same {α : Type} {values : α → α → Prop} {tokens : List Token} {first second : Parsed α}
    (alike : Relocated id values tokens first second) (equal : ∀ v w, values v w → w = v) (ended : first ≠ .exhausted) :
    second = first := by
  have errorsSame : Diagnostic.relocate id = id := rfl
  have tokensSame : Token.relocate id = id := rfl
  cases first with
  | exhausted => exact absurd rfl ended
  | failed errors rest =>
    obtain ⟨_, _, same⟩ := alike
    rw [same, errorsSame, tokensSame, List.map_id, List.map_id]
  | done value errors rest =>
    obtain ⟨_, moved, related, same⟩ := alike
    rw [same, equal value moved related, errorsSame, tokensSame, List.map_id, List.map_id]

/-- Steps that sufficed suffice again when there are more of them. -/
theorem declarations_more (nested : Bool) {steps more : Nat} (enough : steps ≤ more) {last : Token} {tokens : List Token}
    (ended : declarations nested steps last tokens ≠ .exhausted) :
    declarations nested more last tokens = declarations nested steps last tokens := by
  have alike := declarations_relocate nested enough last tokens id
  rw [show Token.relocate id = id from rfl, List.map_id, id] at alike
  refine alike.same (fun stmts moved related => ?_) ended
  rw [related, Stmt.relocate_id_eq, List.map_id]

theorem declaration_more (nested : Bool) {steps more : Nat} (enough : steps ≤ more) {last : Token} {tokens : List Token}
    (ended : declaration nested steps last tokens ≠ .exhausted) :
    declaration nested more last tokens = declaration nested steps last tokens := by
  have alike := (statementsAlike (relocation_lawful id) enough).declaration nested last tokens
  rw [show Token.relocate id = id from rfl, List.map_id, id] at alike
  refine alike.same (fun found moved related => ?_) ended
  rw [eq_map_of_rel related, Stmt.relocate_id_eq, Option.map_id, id]

end Treewalk.Parser
