import Treewalk.Proofs.ProgramGrammar

/-! Programs one after another. What the first declaration leaves is read as if it stood alone; so is what
stands behind tokens that are read without an error, unless it starts with an `else`, which could still
belong to an `if` before it. -/

namespace Treewalk.Program
open Treewalk.Grammar Treewalk.Parser

variable {tokens rest back : List Token} {last : Token}

/-- The first declaration is read, with errors or without, and what it leaves is a program of its own. -/
theorem ofTokens_declaration {token : Token} {found : Option Stmt} {errors : List Diagnostic} (ends : last.isEnd = true)
    (plain : ∀ other ∈ token :: tokens, other.isEnd = false) (plainRest : ∀ other ∈ rest, other.isEnd = false)
    (reads : ∃ least, ∀ steps, least ≤ steps → declaration false steps last (token :: tokens) = .done found errors rest) :
    ofTokens (token :: tokens ++ [last]) =
      ⟨found.toList ++ (ofTokens (rest ++ [last])).statements, errors ++ (ofTokens (rest ++ [last])).errors⟩ := by
  obtain ⟨least, first⟩ := reads
  obtain ⟨enough, whole⟩ := ofTokens_declarations ends plain
  obtain ⟨others, behind⟩ := ofTokens_declarations ends plainRest
  let steps := least + enough + others
  have read := whole (steps + 1) (by omega)
  rw [declarations_cons, if_neg (by simp [closesBlock])] at read
  simp only [Bind.bind, andThen, first steps (by omega), behind steps (by omega), pure, succeed, Parsed.reportedAfter,
    List.append_nil, Parsed.done.injEq, and_true] at read
  obtain ⟨statements, reported⟩ := read
  rw [statements, reported]

/-- Declarations of the grammar are read one by one, whatever stands behind them. -/
theorem ofTokens_derived {items : List (List Token × Stmt)} (each : ∀ item ∈ items, Statement True .declaration item.1 item.2)
    (ends : last.isEnd = true) (plain : ∀ token ∈ (items.map Prod.fst).flatten ++ back, token.isEnd = false)
    (free : ¬ StartsWith [.elseWord] back) :
    ofTokens ((items.map Prod.fst).flatten ++ back ++ [last]) =
      ⟨items.map Prod.snd ++ (ofTokens (back ++ [last])).statements, (ofTokens (back ++ [last])).errors⟩ := by
  induction items with
  | nil => rfl
  | cons item items ih =>
    obtain ⟨derived, eachOther⟩ := List.forall_mem_cons.mp each
    simp only [List.map_cons, List.flatten_cons, List.append_assoc] at plain ⊢
    have plainRest : ∀ token ∈ (items.map Prod.fst).flatten ++ back, token.isEnd = false :=
      fun token member => plain token (List.mem_append_right _ member)
    have settled : ¬ StartsWith [.elseWord] ((items.map Prod.fst).flatten ++ back) := by
      cases items with
      | nil => exact free
      | cons next items =>
        simp only [List.map_cons, List.flatten_cons, List.append_assoc]
        exact ((statement_starts (eachOther next List.mem_cons_self)).append _).excludes (by decide)
    have reads := statement_complete derived false last _ settled
    obtain ⟨token, others, same, _⟩ := statement_starts derived
    rw [same, List.cons_append] at reads plain
    have joined := ofTokens_declaration ends plain plainRest reads
    rw [ih eachOther plainRest, List.cons_append] at joined
    simpa [same] using joined

/-- Behind tokens that are read without an error, whatever follows is read as if it stood alone. -/
theorem ofTokens_append (front back : List Token) (last : Token) (ends : last.isEnd = true)
    (plain : ∀ token ∈ front ++ back, token.isEnd = false) (valid : (ofTokens (front ++ [last])).errors = [])
    (free : ¬ StartsWith [.elseWord] back) :
    ofTokens (front ++ back ++ [last]) =
      ⟨(ofTokens (front ++ [last])).statements ++ (ofTokens (back ++ [last])).statements,
        (ofTokens (back ++ [last])).errors⟩ := by
  have plainFront : ∀ token ∈ front, token.isEnd = false := fun token member => plain token (List.mem_append_left _ member)
  obtain ⟨items, each, rfl, statements⟩ := (ofTokens_derives ends plainFront _).mpr ⟨valid, rfl⟩
  rw [statements]
  exact ofTokens_derived each ends plain free

/-- Behind `if (a) b;` the tokens `) ; b ;` are read as alone: one error, and recovery ends at the first semicolon. -/
theorem brokenTail_read_alone :
    let tokens := List.map fun kind : TokenKind => Token.onLine kind kind.bytes 1
    let front := tokens [.ifWord, .leftParen, .identifier, .rightParen, .identifier, .semicolon]
    let back := tokens [.rightParen, .semicolon, .identifier, .semicolon]
    (ofTokens (front ++ [.endAt {}])).errors = [] ∧ (ofTokens (back ++ [.endAt {}])).errors.length = 1 ∧
      ofTokens (front ++ back ++ [.endAt {}]) =
        ⟨(ofTokens (front ++ [.endAt {}])).statements ++ (ofTokens (back ++ [.endAt {}])).statements,
          (ofTokens (back ++ [.endAt {}])).errors⟩ := by
  intro tokens front back
  have valid : (ofTokens (front ++ [.endAt {}])).errors = [] := by
    refine List.eq_nil_of_length_eq_zero ?_
    decide +kernel
  have free : ¬ StartsWith [.elseWord] back := by
    rintro ⟨token, rest, same, kind⟩
    obtain ⟨rfl, -⟩ := List.cons_eq_cons.mp same
    revert kind
    decide
  exact ⟨valid, by decide +kernel, ofTokens_append front back (.endAt {}) rfl (by decide +kernel) valid free⟩

end Treewalk.Program
