import Treewalk.Proofs.ParserRelocation

/-! What reading tokens can build. Something that is true of every token, and of every tree that a rule
puts together from parts of which it is true, is true of all statements that are read. Those that are
kept beside an error are no exception. -/

namespace Treewalk.Parser

/-- The value that was read, and the tokens that are left, are of one sort. -/
def Built {α : Type} (value : α → Prop) (token : Token → Prop) : Parsed α → Prop
  | .done read _ rest => value read ∧ ∀ t ∈ rest, token t
  | .failed _ rest => ∀ t ∈ rest, token t
  | .exhausted => True

def building (token : Token → Prop) (expr : Expr → Prop) (stmt : Stmt → Prop) : Likeness where
  token t u := u = t ∧ token t
  expr e f := f = e ∧ expr e
  stmt s r := r = s ∧ stmt s
  parser values first _ := ∀ last tokens, token last → (∀ t ∈ tokens, token t) →
    Built (fun read => ∃ other, values read other) token (first last tokens)

theorem forall₂_same {α : Type} {sort : α → Prop} {as bs : List α}
    (each : List.Forall₂ (fun a b => b = a ∧ sort a) as bs) : bs = as ∧ ∀ a ∈ as, sort a := by
  induction each with
  | nil => simp
  | cons same _ ih => exact ⟨by rw [same.1, ih.1], List.forall_mem_cons.mpr ⟨same.2, ih.2⟩⟩

theorem rel_same {α : Type} {sort : α → Prop} {a b : Option α} (each : Option.Rel (fun a b => b = a ∧ sort a) a b) :
    b = a ∧ ∀ value ∈ a, sort value := by
  cases each with
  | none => simp
  | some same => simp [same.1, same.2]

section

variable {token : Token → Prop} {expr : Expr → Prop} {stmt : Stmt → Prop}

private theorem building_bind {α β γ δ : Type} {firsts : α → β → Prop} {values : γ → δ → Prop} {p : Parser α} {q : Parser β}
    {f : α → Parser γ} {g : β → Parser δ} (begins : (building token expr stmt).parser firsts p q)
    (goesOn : ∀ v w, firsts v w → (building token expr stmt).parser values (f v) (g w)) :
    (building token expr stmt).parser values (p >>= f) (q >>= g) := by
  intro last tokens ending each
  have first := begins last tokens ending each
  change Built _ token (andThen p f last tokens)
  unfold andThen
  cases outcome : p last tokens with
  | exhausted => trivial
  | failed errors rest =>
    rw [outcome] at first
    exact first
  | done value errors rest =>
    rw [outcome] at first
    obtain ⟨⟨other, related⟩, left⟩ := first
    have second := goesOn value other related last rest ending left
    dsimp only
    cases following : f value last rest with
    | exhausted => trivial
    | failed later rest | done result later rest =>
      rw [following] at second
      exact second

theorem building_keepsParsers : (building token expr stmt).KeepsParsers where
  succeed related _ _ _ each := ⟨⟨_, related⟩, each⟩
  bind := building_bind
  outOfSteps _ _ _ _ := trivial
  peek := by
    intro last tokens ending each
    refine ⟨⟨_, rfl, ?_⟩, each⟩
    cases tokens with
    | nil => exact ending
    | cons head rest => exact each head List.mem_cons_self
  nextIs := by
    intro kinds last tokens _ each
    cases tokens <;> exact ⟨⟨_, rfl⟩, each⟩
  atEnd := by
    intro last tokens _ each
    exact ⟨⟨_, rfl⟩, each⟩
  accept := by
    intro kinds last tokens _ each
    cases tokens with
    | nil => exact ⟨⟨_, .none⟩, each⟩
    | cons head rest =>
      obtain ⟨here, later⟩ := List.forall_mem_cons.mp each
      unfold accept
      dsimp only
      split
      next taken => exact ⟨⟨_, .some ⟨⟨rfl, here⟩, List.contains_iff_mem.mp taken⟩⟩, later⟩
      next => exact ⟨⟨_, .none⟩, each⟩
  report _ _ _ _ _ each := ⟨⟨_, rfl⟩, each⟩
  fail _ _ _ _ _ each := each
  skipBraces := by
    intro last tokens _ each
    exact ⟨⟨_, rfl⟩, fun t left => each t ((dropBraces_suffix 1 tokens).subset left)⟩
  recover := by
    intro nested p q inside last tokens ending each
    have outcome := inside last tokens ending each
    unfold recover
    cases ended : p last tokens with
    | failed errors rest =>
      rw [ended] at outcome
      exact ⟨⟨_, .none⟩, fun t left => outcome t ((synchronize_suffix nested rest).subset left)⟩
    | exhausted => trivial
    | done value errors rest =>
      rw [ended] at outcome
      exact outcome

private theorem declarations_built (trees : (building token expr stmt).KeepsTrees) {nested : Bool} {steps : Nat} {last : Token}
    {tokens rest : List Token} {statements : List Stmt} {errors : List Diagnostic} (ending : token last)
    (each : ∀ t ∈ tokens, token t) (reads : declarations nested steps last tokens = .done statements errors rest) :
    ∀ s ∈ statements, stmt s := by
  have alike := statementsAlike ⟨trees, building_keepsParsers⟩ (Nat.le_refl steps)
  have built := alike.declarations nested last tokens ending each
  rw [reads] at built
  obtain ⟨⟨others, related⟩, _⟩ := built
  exact (forall₂_same related).2

/-- Every statement that is read from tokens is of the sort that the rules build. -/
theorem ofTokens_built_upTo (trees : (building token expr stmt).KeepsTrees) {tokens : List Token}
    (last : token (Program.lastToken tokens)) (each : ∀ t ∈ tokens, token t) :
    ∀ s ∈ (Program.ofTokens tokens).statements, stmt s := by
  unfold Program.ofTokens
  dsimp only
  split
  next reads => exact declarations_built trees last (fun t front => each t (List.takeWhile_subset _ front)) reads
  next => simp
  next => simp

theorem ofTokens_built (trees : (building token expr stmt).KeepsTrees) {tokens : List Token}
    (ending : ∀ pos, token (.endAt pos)) (each : ∀ t ∈ tokens, token t) :
    ∀ s ∈ (Program.ofTokens tokens).statements, stmt s := by
  have last : token (Program.lastToken tokens) := by
    unfold Program.lastToken
    split
    next found => exact each _ (List.mem_of_find?_eq_some found)
    next => exact ending _
  exact ofTokens_built_upTo trees last each

end
end Treewalk.Parser
