import Mathlib.Data.List.Infix
import Treewalk.Proofs.ParserBraces
import Treewalk.Proofs.ProgramJoin

/-! Where a block ends. It ends at a closing brace, and what stands behind that is read as if it stood alone;
but it is not always its own brace, since recovery may drop an opening one. -/

namespace Treewalk

namespace Parser

/-- Every brace that is closed was opened before, and in the end all are closed. -/
structure Balanced (tokens : List Token) : Prop where
  within : ∀ front, front <+: tokens → closings front ≤ openings front
  whole : openings tokens = closings tokens

instance (tokens : List Token) : Decidable (Balanced tokens) :=
  decidable_of_iff ((∀ front ∈ tokens.inits, closings front ≤ openings front) ∧ openings tokens = closings tokens)
    ⟨fun holds => ⟨fun front within => holds.1 front ((List.mem_inits _ _).mpr within), holds.2⟩,
      fun balanced => ⟨fun front member => balanced.within front ((List.mem_inits _ _).mp member), balanced.whole⟩⟩

section

variable {inner rest taken left : List Token} {opening closing brace last : Token}

/-- A closing brace behind what is balanced closes more than was opened. -/
theorem Balanced.not_rises (balanced : Balanced inner) (closes : closing.kind = .rightBrace)
    (within : inner ++ [closing] <+: taken) : ¬ Rises 0 taken := by
  intro rises
  have more := rises _ within
  have whole := balanced.whole
  have one : closings [closing] = 1 ∧ openings [closing] = 0 := by
    simp [closings_singleton, openings_singleton, closes]
  rw [closings_append, openings_append] at more
  omega

theorem Balanced.taken_within (balanced : Balanced inner) (closes : closing.kind = .rightBrace) (rises : Rises 0 taken)
    (parts : inner ++ closing :: rest = taken ++ left) : taken <+: inner := by
  have first : taken <+: inner ++ closing :: rest := ⟨left, parts.symm⟩
  have second : inner ++ [closing] <+: inner ++ closing :: rest := ⟨rest, by simp⟩
  rcases List.prefix_or_prefix_of_prefix first second with shorter | longer
  · rcases List.prefix_concat_iff.mp shorter with rfl | within
    · exact absurd rises (balanced.not_rises closes (List.prefix_refl _))
    · exact within
  · exact absurd rises (balanced.not_rises closes longer)

/-- Where as many braces are closed as opened, the next one that is closed stands behind what is balanced. -/
theorem Balanced.taken_whole (balanced : Balanced inner) (ends : brace.kind = .rightBrace)
    (within : taken ++ brace :: left <+: inner) : closings taken ≠ openings taken := by
  intro level
  have front : taken ++ [brace] <+: inner := List.IsPrefix.trans ⟨left, by simp⟩ within
  have more := balanced.within _ front
  have one : closings [brace] = 1 ∧ openings [brace] = 0 := by
    simp [closings_singleton, openings_singleton, ends]
  rw [closings_append, openings_append] at more
  omega

theorem statement_opening (opens : opening.kind = .leftBrace) (steps : Nat) (last : Token) (tokens : List Token) :
    statement (steps + 1) last (opening :: tokens) =
      (closedBlock (declarations true steps) >>= fun body => pure (.block body opening.pos) : Parser Stmt) last tokens := by
  rw [statement]
  simp [Bind.bind, andThen, accept, opens]

theorem declaration_opening (opens : opening.kind = .leftBrace) (ends : brace.kind = .rightBrace) {steps : Nat}
    {tokens : List Token} {body : List Stmt} {errors : List Diagnostic}
    (read : declarations true steps last tokens = .done body errors (brace :: left)) (nested : Bool) :
    declaration nested (steps + 2) last (opening :: tokens) = .done (some (.block body opening.pos)) errors left := by
  have block : statement (steps + 1) last (opening :: tokens) = .done (.block body opening.pos) errors left := by
    rw [statement_opening opens]
    simp [closedBlock, expect, Bind.bind, andThen, read, accept, ends, pure, succeed, Parsed.reportedAfter]
  rw [declaration]
  unfold recover plainDeclaration
  simp [Bind.bind, andThen, accept, opens, block, pure, succeed, Parsed.reportedAfter]

end
end Parser

namespace Program
open Treewalk.Parser

/-- The first tokens are read as one block, and what is behind them as if it stood alone. -/
def ReadsBlock (block rest : List Token) (last : Token) : Prop :=
  ∃ body pos errors, ofTokens (block ++ rest ++ [last]) =
      ⟨.block body pos :: (ofTokens (rest ++ [last])).statements, errors ++ (ofTokens (rest ++ [last])).errors⟩ ∧
    ∀ error ∈ errors, error.token ∈ block

/-- How the block is read that stands in front of `rest`: up to `brace`, with `left` behind it. -/
structure BlockRead (inner rest : List Token) (closing last : Token) (taken left : List Token) (brace : Token) (body : List Stmt)
    (errors : List Diagnostic) : Prop where
  parts : inner ++ closing :: rest = taken ++ brace :: left
  ends : brace.kind = .rightBrace
  within : taken <+: inner
  located : ∀ error ∈ errors, error.token ∈ taken ++ [brace]
  level : Loses errors taken (brace :: left) ∨ closings taken = openings taken
  reads : ∃ least, ∀ steps, least ≤ steps →
    declarations true steps last (inner ++ closing :: rest) = .done body errors (brace :: left)

variable {inner rest taken left : List Token} {opening closing brace last : Token} {body : List Stmt}
  {errors : List Diagnostic}

theorem exists_blockRead (closes : closing.kind = .rightBrace) (balanced : Balanced inner) (rest : List Token) (last : Token) :
    ∃ taken left brace body errors, BlockRead inner rest closing last taken left brace body errors := by
  let tokens := inner ++ closing :: rest
  let steps := 20 * tokens.length + 16
  have ended := (statementsEnd steps).declarations true tokens.length (Nat.le_refl _) last tokens (Nat.le_refl _)
  have passes : PassesTo [] 0 last tokens _ := (statementsLevel steps).declarations last tokens
  rcases declarations_stop true steps last tokens with none | ⟨body, errors, behind, read, stops⟩
  · rw [none] at ended
    exact ended.elim
  · rw [read] at passes
    obtain ⟨taken, passes⟩ := passes
    have within := balanced.taken_within closes passes.rises passes.parts
    rcases stops with rfl | ⟨_, brace, left, rfl, kind⟩
    · -- The block is closed before the tokens end.
      have whole := passes.parts
      rw [List.append_nil] at whole
      have short := within.length_le
      rw [← whole] at short
      simp only [tokens, List.length_append, List.length_cons] at short
      omega
    · refine ⟨taken, left, brace, body, errors, passes.parts, List.mem_singleton.mp kind, within, ?_, ?_, steps, ?_⟩
      · exact fun error member => by simpa using (passes.located error member).2
      · rcases passes.level with impossible | lost | level
        · cases impossible
        · exact .inl lost
        · exact .inr (by simpa using level)
      · intro more enough
        exact (declarations_more true enough (by rw [read]; simp)).trans read

/-- The block that is read comes first, and what is left is a program of its own. -/
theorem BlockRead.ofTokens (read : BlockRead inner rest closing last taken left brace body errors)
    (opens : opening.kind = .leftBrace) (ends : last.isEnd = true)
    (plain : ∀ token ∈ opening :: (inner ++ closing :: rest), token.isEnd = false) :
    Program.ofTokens (opening :: (inner ++ closing :: rest) ++ [last]) =
      ⟨.block body opening.pos :: (Program.ofTokens (left ++ [last])).statements,
        errors ++ (Program.ofTokens (left ++ [last])).errors⟩ := by
  have plainLeft : ∀ token ∈ left, token.isEnd = false := by
    intro token member
    refine plain token (List.mem_cons_of_mem _ ?_)
    rw [read.parts]
    exact List.mem_append_right _ (List.mem_cons_of_mem _ member)
  obtain ⟨least, block⟩ := read.reads
  have first : ∃ least, ∀ steps, least ≤ steps → declaration false steps last (opening :: (inner ++ closing :: rest)) =
      .done (some (.block body opening.pos)) errors left := by
    refine ⟨least + 2, fun steps enough => ?_⟩
    obtain ⟨more, rfl⟩ := Nat.exists_eq_add_of_le' (Nat.le_of_add_left_le enough)
    exact declaration_opening opens read.ends (block more (by omega)) false
  exact ofTokens_declaration ends plain plainLeft first

theorem BlockRead.splits (read : BlockRead inner rest closing last taken left brace body errors) :
    ∃ skipped, inner ++ [closing] = taken ++ brace :: skipped ∧ left = skipped ++ rest := by
  obtain ⟨others, rfl⟩ := read.within
  have parts := read.parts
  rw [List.append_assoc, List.append_cancel_left_eq] at parts
  cases others with
  | nil =>
    obtain ⟨rfl, rfl⟩ := List.cons_eq_cons.mp parts
    exact ⟨[], by simp, rfl⟩
  | cons first others =>
    obtain ⟨rfl, rfl⟩ := List.cons_eq_cons.mp parts
    exact ⟨others ++ [closing], by simp, by simp⟩

/-- A block that ends early has lost an opening brace. -/
theorem BlockRead.early (read : BlockRead inner rest closing last taken left brace body errors)
    (balanced : Balanced inner) : taken = inner ∨ ∃ error ∈ errors, error.defect.givesUp = true ∧
      ∃ back, back <:+ inner ∧ back.head? = some error.token ∧ DropsBrace (back ++ closing :: rest) := by
  obtain ⟨others, rfl⟩ := read.within
  have parts := read.parts
  rw [List.append_assoc, List.append_cancel_left_eq] at parts
  rcases read.level with ⟨error, member, givesUp, back, ⟨front, rfl⟩, starts, drops⟩ | level
  · refine .inr ⟨error, member, givesUp, back ++ others, ⟨front, by simp⟩, ?_, ?_⟩
    · rw [List.head?_append, starts, Option.some_or]
    · rwa [List.append_assoc, parts]
  · cases others with
    | nil => exact .inl (by simp)
    | cons first others =>
      obtain ⟨rfl, _⟩ := List.cons_eq_cons.mp parts
      exact absurd level (balanced.taken_whole read.ends (List.prefix_refl _))

/-- A block ends at a closing brace, its own or an earlier one, and what is behind it is read as if it stood
alone. It is its own brace unless an opening brace inside is dropped in recovery from an error. -/
theorem ofTokens_block (inner rest : List Token) (opening closing last : Token) (opens : opening.kind = .leftBrace)
    (closes : closing.kind = .rightBrace) (balanced : Balanced inner) (ends : last.isEnd = true)
    (plain : ∀ token ∈ inner ++ rest, token.isEnd = false) :
    (∃ taken brace skipped, inner ++ [closing] = taken ++ brace :: skipped ∧ brace.kind = .rightBrace ∧
      ReadsBlock (opening :: (taken ++ [brace])) (skipped ++ rest) last) ∧
    ((∀ error ∈ (Program.ofTokens (opening :: (inner ++ [closing]) ++ rest ++ [last])).errors, error.defect.givesUp = true →
        ∀ back, back <:+ inner → back.head? = some error.token → ¬ DropsBrace (back ++ closing :: rest)) →
      ReadsBlock (opening :: (inner ++ [closing])) rest last) := by
  obtain ⟨taken, left, brace, body, errors, read⟩ := exists_blockRead closes balanced rest last
  obtain ⟨skipped, parts, rfl⟩ := read.splits
  have marks : opening.isEnd = false ∧ closing.isEnd = false := by
    simp [Token.isEnd, opens, closes]
  have program := read.ofTokens opens ends (by simpa [marks, or_imp, forall_and] using plain)
  have block : ReadsBlock (opening :: (taken ++ [brace])) (skipped ++ rest) last := by
    refine ⟨body, opening.pos, errors, ?_, fun error member => List.mem_cons_of_mem _ (read.located error member)⟩
    rw [← program, read.parts]
    simp
  refine ⟨⟨taken, brace, skipped, parts, read.ends, block⟩, fun kept => ?_⟩
  rcases read.early balanced with rfl | ⟨error, member, givesUp, back, within, starts, drops⟩
  · rw [List.append_cancel_left_eq] at parts
    obtain ⟨rfl, rfl⟩ := List.cons_eq_cons.mp parts
    exact block
  · refine absurd drops (kept error ?_ givesUp back within starts)
    have same : opening :: (inner ++ [closing]) ++ rest ++ [last] = opening :: (inner ++ closing :: rest) ++ [last] := by simp
    rw [same, program]
    exact List.mem_append_left _ member

def spelled (kind : TokenKind) : Token :=
  .onLine kind kind.bytes 1

/-- Behind the parenthesis in `) ; { }` the semicolon ends the recovery. -/
theorem keptBrace_closes : Balanced ([.rightParen, .semicolon, .leftBrace, .rightBrace].map spelled) ∧
    ReadsBlock ([.leftBrace, .rightParen, .semicolon, .leftBrace, .rightBrace, .rightBrace].map spelled)
      ([.identifier, .semicolon].map spelled) (.endAt {}) := by
  let inner := [.rightParen, .semicolon, .leftBrace, .rightBrace].map spelled
  let rest := [.identifier, .semicolon].map spelled
  have balanced : Balanced inner := by decide +kernel
  have kept : ∀ error ∈ (Program.ofTokens
      (spelled .leftBrace :: (inner ++ [spelled .rightBrace]) ++ rest ++ [.endAt {}])).errors, error.defect.givesUp = true →
      ∀ back ∈ inner.tails, back.head? = some error.token → ¬ DropsBrace (back ++ spelled .rightBrace :: rest) := by
    decide +kernel
  refine ⟨balanced, (ofTokens_block inner rest (spelled .leftBrace) (spelled .rightBrace) (.endAt {}) rfl rfl balanced rfl
    (by decide +kernel)).2 fun error member givesUp back within => ?_⟩
  exact kept error member givesUp back ((List.mem_tails _ _).mpr within)

/-- Behind the parenthesis in `) { }` the opening brace is dropped, too: so the block ends early, and
what stands behind it is lost. -/
theorem droppedBrace_ends_early : Balanced ([.rightParen, .leftBrace, .rightBrace].map spelled) ∧
    ¬ ReadsBlock ([.leftBrace, .rightParen, .leftBrace, .rightBrace, .rightBrace].map spelled)
      ([.identifier, .semicolon].map spelled) (.endAt {}) := by
  refine ⟨by decide +kernel, fun read => ?_⟩
  obtain ⟨body, pos, errors, program, _⟩ := read
  have counts := congrArg (·.statements.length) program
  have whole : (Program.ofTokens ([.leftBrace, .rightParen, .leftBrace, .rightBrace, .rightBrace].map spelled ++
    [.identifier, .semicolon].map spelled ++ [.endAt {}])).statements.length = 1 := by decide +kernel
  have behind : (Program.ofTokens ([.identifier, .semicolon].map spelled ++ [.endAt {}])).statements.length = 1 := by
    decide +kernel
  simp only [List.length_cons] at counts
  omega

end Program
end Treewalk
