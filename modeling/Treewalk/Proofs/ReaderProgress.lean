import Treewalk.Proofs.ProgramGrammar
import Treewalk.Proofs.ReaderAgreement

/-! Whatever tokens are given, reading them comes to an end within them. A declaration that is read where the loop
around it goes on gets ahead of where it started, whether it is well formed or recovers, and leaves as many blocks
open; so the loops end. Nothing behind the first mark of an end is looked at. -/

namespace Treewalk

open Treewalk.Program (stepsFor lastToken ofTokens)

/-- One cursor is ahead of another among the same tokens, and as many blocks are open. -/
structure Cursor.Passed (start cursor : Cursor) : Prop where
  tokens : cursor.tokens = start.tokens
  ahead : start.current < cursor.current
  inside : cursor.current < cursor.tokens.size
  blocks : cursor.blocks = start.blocks

namespace Reader

open Cursor

/-- From one cursor to another by one declaration after the other. Each of them is read where the loop goes on. -/
inductive Rounds (nested : Bool) : Cursor → Cursor → Prop where
  | stop {cursor} (ends : declarationsEnd nested cursor = .done true cursor) : Rounds nested cursor cursor
  | round {cursor next final found steps} (goesOn : declarationsEnd nested cursor = .done false cursor)
    (read : declaration steps cursor = .done found next) (passed : cursor.Passed next)
    (rest : Rounds nested next final) : Rounds nested cursor final

section

variable {ground : Ground} {cursor : Cursor} {token : Token} {rest : List Token}

theorem done_of_bind {α β : Type} {reader : Reader α} {next : α → Reader β} {value : β} {final : Cursor}
    (read : (reader >>= next) cursor = .done value final) :
    ∃ found after, reader cursor = .done found after ∧ next found after = .done value final := by
  change andThen reader next cursor = _ at read
  unfold andThen at read
  split at read
  next found after first => exact ⟨found, after, first, read⟩
  all_goals cases read

/-- A declaration that does not run out of steps gets ahead. -/
theorem declaration_passes (stands : cursor.Stands ground (token :: rest))
    (goesOn : Parser.closesBlock ground.nested token = false) (steps : Nat) :
    (∃ found next left, declaration steps cursor = .done found next ∧ cursor.Passed next ∧ next.Stands ground left) ∨
      declaration steps cursor = .exhausted ∧ steps < 20 * (token :: rest).length + 15 := by
  have agrees := (statementsFollow steps).declaration ground cursor token rest stands
  have takes : ∀ more, 20 * (token :: rest).length + 15 ≤ more →
      (Parser.declaration ground.nested more ground.last (token :: rest)).Takes 1 (token :: rest) :=
    fun more enough => (Parser.statementsEnd more).declaration ground.nested _ _ token rest enough (Nat.le_refl _) goesOn
  cases outcome : Parser.declaration ground.nested steps ground.last (token :: rest) with
  | failed errors left => exact absurd outcome (Parser.declaration_recovers _ _ _ _ _ _)
  | exhausted =>
    rw [outcome] at agrees
    refine .inr ⟨agrees.of_exhausted, Nat.lt_of_not_le fun enough => ?_⟩
    have impossible := takes steps enough
    rw [outcome] at impossible
    exact impossible
  | done found errors left =>
    rw [outcome] at agrees
    obtain ⟨next, read, arrives⟩ := agrees.of_done
    -- The steps may be too few for the bound; more of them change nothing where these sufficed.
    have shorter := takes _ (Nat.le_max_right steps _)
    rw [Parser.declaration_more ground.nested (Nat.le_max_left _ _) (by simp [outcome]), outcome] at shorter
    refine .inl ⟨found, next, left, read, ⟨arrives.tokens, ?_, ?_, arrives.blocks⟩, arrives.toStands⟩
    · have before := stands.size
      have behind := arrives.toStands.size
      rw [arrives.tokens] at behind
      simp only [Parsed.Takes] at shorter
      omega
    · have behind := arrives.toStands.size
      omega

/-- A run of the loop is made of declarations that each get ahead. -/
theorem declarations_rounds {steps : Nat} {stmts : List Stmt} {final : Cursor} (stands : cursor.Stands ground rest)
    (read : declarations ground.nested steps cursor = .done stmts final) : Rounds ground.nested cursor final := by
  induction steps generalizing cursor rest stmts with
  | zero => cases read
  | succ steps ih =>
    rw [declarations] at read
    cases rest with
    | nil =>
      have ends := declarationsEnd_end stands
      rw [bind_of_done ends] at read
      cases read
      exact .stop ends
    | cons token rest =>
      have test := declarationsEnd_eq stands
      rw [bind_of_done test] at read
      cases closes : Parser.closesBlock ground.nested token with
      | true =>
        rw [closes] at read test
        cases read
        exact .stop test
      | false =>
        rw [closes] at read test
        obtain ⟨found, next, first, read⟩ := done_of_bind read
        obtain ⟨others, behind, more, read⟩ := done_of_bind read
        cases read
        rcases declaration_passes stands closes steps with ⟨_, _, left, same, passed, further⟩ | ⟨same, _⟩
        · cases first.symm.trans same
          exact .round test first passed (ih further more)
        · cases first.symm.trans same

/-- Behind the last token nothing can be seen, so no loop can tell there whether to go on. -/
theorem declarationsEnd_inside {nested answer : Bool} {after : Cursor}
    (test : declarationsEnd nested cursor = .done answer after) : cursor.current < cursor.tokens.size := by
  by_contra outside
  have nothing : peek cursor = .astray := by
    rw [peek, lookUp, Array.getElem?_eq_none (Nat.le_of_not_lt outside)]
  have atEnd : atEnd cursor = .astray := by
    change andThen peek _ cursor = _
    rw [andThen, nothing]
  have unseen : declarationsEnd nested cursor = .astray := by
    cases nested with
    | false => exact atEnd
    | true =>
      change andThen (andThen Reader.atEnd _) _ cursor = _
      rw [andThen, andThen, atEnd]
  cases unseen.symm.trans test

/-- Where the mark of an end is still to come, the cursor stands in front of the tokens up to it. -/
theorem stands_of_find {last : Token} (found : (cursor.tokens.toList.drop cursor.current).find? Token.isEnd = some last) :
    ∃ ground : Ground, ground.last = last ∧ ground.nested = decide (0 < cursor.blocks) ∧
      cursor.Stands ground ((cursor.tokens.toList.drop cursor.current).takeWhile fun token => !token.isEnd) := by
  obtain ⟨ends, before, behind, split, plain⟩ := List.find?_eq_some_iff_append.mp found
  have first : (before ++ last :: behind).takeWhile (fun token => !token.isEnd) = before := by
    rw [List.takeWhile_append_of_pos plain, List.takeWhile_cons_of_neg (by simp [ends]), List.append_nil]
  refine ⟨⟨last, behind, _, ends⟩, rfl, rfl, ?_⟩
  rw [split, first]
  exact ⟨split, fun token member => by simpa using plain token member, rfl⟩

end

/-- Tokens that do not close with the mark of an end get one. -/
theorem start_tokens (tokens : List Token) :
    (∃ final, tokens.getLast? = some final ∧ final.isEnd = true ∧ (Cursor.start tokens).tokens.toList = tokens) ∨
      (Cursor.start tokens).tokens.toList = tokens ++ [.endAt ((tokens.getLast?.map Token.pos).getD {})] := by
  unfold Cursor.start
  cases closing : tokens.getLast? with
  | none =>
    rw [List.getLast?_eq_none_iff.mp closing]
    exact .inr rfl
  | some final =>
    dsimp only
    split
    next ends => exact .inl ⟨final, rfl, ends, rfl⟩
    next => exact .inr rfl

theorem start_closes (tokens : List Token) :
    ∃ front final, (Cursor.start tokens).tokens.toList = front ++ [final] ∧ final.isEnd = true := by
  rcases start_tokens tokens with ⟨final, closing, ends, same⟩ | same
  · obtain ⟨front, rfl⟩ := List.getLast?_eq_some_iff.mp closing
    exact ⟨front, final, same, ends⟩
  · exact ⟨tokens, _, same, rfl⟩

theorem start_find (tokens : List Token) :
    (Cursor.start tokens).tokens.toList.find? Token.isEnd = some (lastToken tokens) := by
  unfold lastToken
  rcases start_tokens tokens with ⟨final, closing, ends, same⟩ | same
  · rw [same]
    have found : (tokens.find? Token.isEnd).isSome :=
      List.find?_isSome.mpr ⟨final, List.mem_of_getLast? closing, ends⟩
    obtain ⟨token, found⟩ := Option.isSome_iff_exists.mp found
    rw [found]
  · rw [same, List.find?_append]
    cases tokens.find? Token.isEnd <;> rfl

theorem start_takeWhile (tokens : List Token) :
    ((Cursor.start tokens).tokens.toList.takeWhile fun token => !token.isEnd) =
      tokens.takeWhile fun token => !token.isEnd := by
  rcases start_tokens tokens with ⟨_, _, _, same⟩ | same
  · rw [same]
  · rw [same, List.takeWhile_append]
    split
    next whole =>
      rw [(List.takeWhile_prefix _).eq_of_length whole]
      exact List.append_nil tokens
    next => rfl

theorem exists_stands {tokens : List Token} {cursor : Cursor} (same : cursor.tokens = (Cursor.start tokens).tokens)
    (inside : cursor.current < cursor.tokens.size) :
    ∃ ground rest, ground.nested = decide (0 < cursor.blocks) ∧ cursor.Stands ground rest := by
  obtain ⟨front, final, whole, ends⟩ := start_closes tokens
  have found : ((cursor.tokens.toList.drop cursor.current).find? Token.isEnd).isSome := by
    rw [← Array.length_toList, same, whole, List.length_append] at inside
    rw [same, whole, List.drop_append_of_le_length (Nat.le_of_lt_succ inside)]
    exact List.find?_isSome.mpr ⟨final, List.mem_append_right _ List.mem_cons_self, ends⟩
  obtain ⟨last, found⟩ := Option.isSome_iff_exists.mp found
  obtain ⟨ground, _, nested, stands⟩ := stands_of_find found
  exact ⟨ground, _, nested, stands⟩

theorem start_fresh (tokens : List Token) : (Cursor.start tokens).current = 0 ∧ (Cursor.start tokens).blocks = 0 ∧
    (Cursor.start tokens).errors = [] := by
  unfold Cursor.start
  split
  · exact ⟨rfl, rfl, rfl⟩
  · split <;> exact ⟨rfl, rfl, rfl⟩

theorem start_stands (tokens : List Token) : ∃ ground : Ground, ground.last = lastToken tokens ∧ ground.nested = false ∧
    (Cursor.start tokens).Stands ground (tokens.takeWhile fun token => !token.isEnd) := by
  obtain ⟨current, blocks, _⟩ := start_fresh tokens
  have found := start_find tokens
  rw [← List.drop_zero (l := (Cursor.start tokens).tokens.toList), ← current] at found
  obtain ⟨ground, last, nested, stands⟩ := stands_of_find found
  rw [current, List.drop_zero, start_takeWhile] at stands
  exact ⟨ground, last, by rw [nested, blocks]; rfl, stands⟩

theorem parse_agrees (tokens : List Token) (steps : Nat) : ∃ ground, (parse steps (.start tokens)).Agrees ground (.start tokens)
    (Parser.declarations false steps (lastToken tokens) (tokens.takeWhile fun token => !token.isEnd)) := by
  obtain ⟨ground, last, nested, stands⟩ := start_stands tokens
  have agrees := (statementsFollow steps).declarations ground _ _ stands
  rw [nested, last] at agrees
  exact ⟨ground, agrees⟩

/-- What stands behind a mark of an end has no part in a program. -/
theorem ofTokens_behind {last : Token} (ends : last.isEnd = true) (front behind others : List Token) :
    ofTokens (front ++ last :: others) = ofTokens (front ++ last :: behind) := by
  have before : ∀ behind, ((front ++ last :: behind).takeWhile fun token => !token.isEnd) =
      front.takeWhile fun token => !token.isEnd := by
    intro behind
    rw [List.takeWhile_append, List.takeWhile_cons_of_neg (by simp [ends]), List.append_nil]
    split
    next whole => exact ((List.takeWhile_prefix _).eq_of_length whole).symm
    next => rfl
  have mark : ∀ behind, lastToken (front ++ last :: behind) = (front.find? Token.isEnd).getD last := by
    intro behind
    rw [lastToken, List.find?_append, List.find?_cons_of_pos ends]
    cases front.find? Token.isEnd <;> rfl
  unfold ofTokens
  rw [before behind, before others, mark behind, mark others]

/-- A call of a declaration where the loop around it goes on, with a block open or without one. -/
theorem declaration_passes_within {tokens : List Token} {cursor : Cursor} (same : cursor.tokens = (Cursor.start tokens).tokens)
    (goesOn : declarationsEnd (decide (0 < cursor.blocks)) cursor = .done false cursor) (steps : Nat) :
    (∃ found next, declaration steps cursor = .done found next ∧ cursor.Passed next) ∨
      declaration steps cursor = .exhausted ∧ steps < 20 * (cursor.tokens.size - cursor.current) := by
  obtain ⟨ground, rest, nested, stands⟩ := exists_stands same (declarationsEnd_inside goesOn)
  rw [← nested] at goesOn
  cases rest with
  | nil => cases goesOn.symm.trans (declarationsEnd_end stands)
  | cons token rest =>
    obtain ⟨unclosed, _⟩ := Read.done.inj (goesOn.symm.trans (declarationsEnd_eq stands))
    rcases declaration_passes stands unclosed.symm steps with ⟨found, next, _, read, passed, _⟩ | ⟨none, few⟩
    · exact .inl ⟨found, next, read, passed⟩
    · have size := stands.size
      exact .inr ⟨none, by omega⟩

theorem declarations_rounds_within {tokens : List Token} {cursor final : Cursor} {steps : Nat} {stmts : List Stmt}
    (same : cursor.tokens = (Cursor.start tokens).tokens)
    (read : declarations (decide (0 < cursor.blocks)) steps cursor = .done stmts final) :
    Rounds (decide (0 < cursor.blocks)) cursor final := by
  have inside : cursor.current < cursor.tokens.size := by
    cases steps with
    | zero => cases read
    | succ steps =>
      obtain ⟨_, _, test, _⟩ := done_of_bind read
      exact declarationsEnd_inside test
  obtain ⟨ground, rest, nested, stands⟩ := exists_stands same inside
  rw [← nested] at read ⊢
  exact declarations_rounds stands read

/-- Reading ends within the tokens, whatever they are, and yields what the program is. A declaration that is read
where the loop around it goes on, in a block or not, gets ahead and leaves as many blocks open, also when it is
dropped; the loops do nothing else. What stands behind a mark of an end changes nothing. -/
theorem parse_stays_within (tokens : List Token) :
    (∀ steps, parse steps (.start tokens) ≠ .astray) ∧
    (∀ steps, stepsFor tokens ≤ steps → ∃ cursor,
      parse steps (.start tokens) = .done (ofTokens tokens).statements cursor ∧ cursor.errors = (ofTokens tokens).errors) ∧
    (∀ nested cursor, cursor.tokens = (Cursor.start tokens).tokens → decide (0 < cursor.blocks) = nested →
      (declarationsEnd nested cursor = .done false cursor → ∀ steps,
        (∃ found next, declaration steps cursor = .done found next ∧ cursor.Passed next) ∨
          declaration steps cursor = .exhausted ∧ steps < 20 * (cursor.tokens.size - cursor.current)) ∧
      ∀ steps stmts final, declarations nested steps cursor = .done stmts final → Rounds nested cursor final) ∧
    ∀ front last behind others, tokens = front ++ last :: behind → last.isEnd = true →
      ofTokens (front ++ last :: others) = ofTokens tokens := by
  refine ⟨fun steps => ?_, fun steps enough => ?_, fun nested cursor same block => ⟨?_, ?_⟩, ?_⟩
  · obtain ⟨ground, agrees⟩ := parse_agrees tokens steps
    intro astray
    rw [astray] at agrees
    cases agrees
  · obtain ⟨ground, agrees⟩ := parse_agrees tokens steps
    have fewer : (tokens.takeWhile fun token => !token.isEnd).length ≤ tokens.length :=
      (List.takeWhile_prefix _).length_le
    rw [Program.declarations_ofTokens tokens (by unfold stepsFor at enough ⊢; omega)] at agrees
    obtain ⟨cursor, read, arrives⟩ := agrees.of_done
    refine ⟨cursor, read, ?_⟩
    rw [arrives.errors, (start_fresh tokens).2.2, List.nil_append]
  · subst block
    exact declaration_passes_within same
  · subst block
    exact fun _ _ _ read => declarations_rounds_within same read
  · rintro front last behind others rfl ends
    exact ofTokens_behind ends front behind others

/-- In `{ ) }` with a mark of the end and one more `)` behind it, the declaration at the first `)` fails in the block
and recovers in front of the brace, and the last `)` is not read. -/
theorem strayParen_is_passed :
    let tokens := List.map (fun kind : TokenKind => Token.onLine kind kind.bytes 1)
      [.leftBrace, .rightParen, .rightBrace, .eof, .rightParen]
    let inside := { Cursor.start tokens with current := 1, blocks := 1 }
    (∃ final, parse 200 (.start tokens) = .done (ofTokens tokens).statements final ∧
        final.errors = (ofTokens tokens).errors) ∧
      (∃ found next, declaration 200 inside = .done found next ∧ inside.Passed next) ∧
      Rounds true inside { inside with current := 2, errors := (ofTokens tokens).errors } ∧
      ofTokens (tokens.take 4) = ofTokens tokens := by
  intro tokens inside
  obtain ⟨_, ends, loops, alone⟩ := parse_stays_within tokens
  obtain ⟨passes, rounds⟩ := loops true inside rfl rfl
  refine ⟨ends 200 (by decide), ?_, ?_, ?_⟩
  · rcases passes rfl 200 with ahead | ⟨_, few⟩
    · exact ahead
    · exact absurd few (by decide)
  · exact rounds 200 [] _ rfl
  · exact alone (tokens.take 3) (.onLine .eof (TokenKind.bytes .eof) 1) _ [] rfl rfl

end Reader
end Treewalk
