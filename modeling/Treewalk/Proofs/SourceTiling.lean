import Treewalk.Proofs.GlyphBytes
import Treewalk.Proofs.SourcePieces

/-! Scanning loses nothing and invents nothing. The pieces of a source lie one behind the other, so a scan
says of every byte what became of it: a token spells it, or it is ignored, or there is an error for
it. -/

namespace Treewalk

theorem Position.afterAll_offset (pos : Position) (glyphs : List Glyph) :
    (pos.afterAll glyphs).offset = pos.offset + (Glyph.encode glyphs).length := by
  induction glyphs generalizing pos with
  | nil => rfl
  | cons glyph glyphs ih =>
    have step : (pos.after glyph).offset = pos.offset + glyph.bytes.length := by
      unfold after
      dsimp only
      split <;> rfl
    rw [Glyph.encode_cons, List.length_append, ← Nat.add_assoc, ← step]
    exact ih (pos.after glyph)

def Token.stop (token : Token) : Nat :=
  token.pos.offset + token.lexeme.length

/-- The byte at `index` is in one of the tokens. -/
def InToken (tokens : List Token) (index : Nat) : Prop :=
  ∃ token ∈ tokens, token.pos.offset ≤ index ∧ index < token.stop

/-- How the glyphs that are left behind `before` are laid out in a scan. -/
inductive Tiling : (before rest : List Glyph) → Scan → Prop
  | done {before : List Glyph} {pos : Position} (here : pos.offset = (Glyph.encode before).length) :
      Tiling before [] ⟨[.endAt pos], []⟩
  | token {before text rest : List Glyph} {scan : Scan} {token : Token}
      (here : token.pos.offset = (Glyph.encode before).length) (spelled : token.lexeme = Glyph.encode text)
      (some : text ≠ []) (kind : token.kind ≠ .eof ∧ token.kind ≠ .illegal) (tail : Tiling (before ++ text) rest scan) :
      Tiling before (text ++ rest) (scan.addToken token)
  | ignored {before text rest : List Glyph} {scan : Scan} (silent : Ignored text rest)
      (tail : Tiling (before ++ text) rest scan) : Tiling before (text ++ rest) scan
  | faulty {before text rest : List Glyph} {scan : Scan} {pos : Position} {defect : Defect} {incomplete : Bool}
      (here : pos.offset = (Glyph.encode before).length) (some : text ≠ []) (fault : Faulty pos.offset text rest defect)
      (tail : Tiling (before ++ text) rest scan) :
      Tiling before (text ++ rest) (scan.addError (.illegalAt pos) defect incomplete)
  | unclosed {before text rest : List Glyph} {scan : Scan} {pos : Position}
      (stop : pos.offset = (Glyph.encode (before ++ text)).length) (opens : Unclosed text rest)
      (tail : Tiling (before ++ text) rest scan) :
      Tiling before (text ++ rest) (scan.addError (.endAt pos) .unterminatedComment true)

/-- The text stands `offset` bytes into the source, in front of `after`. -/
def Stands (source : List Glyph) (offset : Nat) (text after : List Glyph) : Prop :=
  ∃ before, source = before ++ text ++ after ∧ offset = (Glyph.encode before).length

/-- The byte at `index` belongs to text that stands in the source outside its tokens. -/
structure Gap (source : List Glyph) (tokens : List Token) (index offset : Nat) (text after : List Glyph) : Prop where
  stands : Stands source offset text after
  inside : offset ≤ index ∧ index < offset + (Glyph.encode text).length
  apart : ∀ token ∈ tokens, token.stop ≤ offset ∨ offset + (Glyph.encode text).length ≤ token.pos.offset

/-- Why text at `offset` is in no token: it is ignored, or an error is reported where it starts, or it
is a comment that is missed at the end. -/
def Explained (errors : List Diagnostic) (offset : Nat) (text after : List Glyph) : Prop :=
  Ignored text after ∨
    (∃ error ∈ errors, error.token.pos.offset = offset ∧ Faulty offset text after error.defect) ∨
    Unclosed text after ∧ ∃ error ∈ errors, error.defect = .unterminatedComment ∧
      error.token.pos.offset = offset + (Glyph.encode text).length

theorem Explained.more {errors others : List Diagnostic} {offset : Nat} {text after : List Glyph}
    (explained : Explained errors offset text after) (more : ∀ error ∈ errors, error ∈ others) :
    Explained others offset text after := by
  rcases explained with silent | ⟨error, member, reported⟩ | ⟨opens, error, member, reported⟩
  · exact .inl silent
  · exact .inr (.inl ⟨error, more error member, reported⟩)
  · exact .inr (.inr ⟨opens, error, more error member, reported⟩)

/-- The byte at `index` is in a token, or in text behind `least` that is explained. -/
def Covered (source : List Glyph) (scan : Scan) (least index : Nat) : Prop :=
  InToken scan.tokens index ∨
    ∃ offset text after, least ≤ offset ∧ Gap source scan.tokens index offset text after ∧
      Explained scan.errors offset text after

namespace Tiling

/-- One more piece is laid out. -/
theorem add {before text rest : List Glyph} {finding : Finding} {start stop : Position} {scan : Scan}
    (here : start.offset = (Glyph.encode before).length) (there : stop.offset = (Glyph.encode (before ++ text)).length)
    (some : text ≠ []) (fits : finding.Fits text rest) (tail : Tiling (before ++ text) rest scan) :
    Tiling before (text ++ rest) (scan.add ⟨text, finding⟩ start stop) := by
  cases finding with
  | blank => exact .ignored fits tail
  | token kind value => exact .token here rfl some fits tail
  | badByte | badNumber | badCharacter | openString => exact .faulty here some (fits _) tail
  | openComment => exact .unclosed there fits tail

theorem ofPieces (before glyphs : List Glyph) {start : Position} (here : start.offset = (Glyph.encode before).length) :
    Tiling before glyphs (Scan.ofPieces start (Lexer.pieces glyphs)) := by
  fun_induction Lexer.pieces glyphs generalizing before start with
  | case1 => exact .done here
  | case2 glyph rest finding length same ih =>
    have fits := Lexer.classify_fits glyph rest
    rw [same] at fits
    have there : (start.afterAll (glyph :: rest.take length)).offset =
        (Glyph.encode (before ++ glyph :: rest.take length)).length := by
      rw [Position.afterAll_offset, Glyph.length_encode_append, here]
    have parts : glyph :: rest = (glyph :: rest.take length) ++ rest.drop length := by simp
    rw [parts]
    exact add here there (List.cons_ne_nil _ _) fits (ih _ there)

variable {before rest : List Glyph} {scan : Scan}

theorem token_after (tiling : Tiling before rest scan) :
    ∀ token ∈ scan.tokens, (Glyph.encode before).length ≤ token.pos.offset := by
  induction tiling with
  | done here =>
    intro token member
    obtain rfl := List.mem_singleton.mp member
    exact Nat.le_of_eq here.symm
  | token here spelled some kind tail ih =>
    intro token member
    rcases List.mem_cons.mp member with rfl | later
    · exact Nat.le_of_eq here.symm
    · have further := ih token later
      rw [Glyph.length_encode_append] at further
      omega
  | ignored _ _ ih | faulty _ _ _ _ ih | unclosed _ _ _ ih =>
    intro token member
    have further := ih token member
    rw [Glyph.length_encode_append] at further
    omega

/-- The tokens are followed by the one that marks the end of the source. -/
theorem ends (tiling : Tiling before rest scan) : ∃ front stop, scan.tokens = front ++ [.endAt stop] ∧
    stop.offset = (Glyph.encode (before ++ rest)).length ∧ ∀ token ∈ front, token.kind ≠ .eof ∧ token.kind ≠ .illegal := by
  induction tiling with
  | done here => exact ⟨[], _, rfl, by rw [List.append_nil]; exact here, fun token none => nomatch none⟩
  | @token _ _ _ _ first _ _ _ kind _ ih =>
    obtain ⟨front, stop, tokens, offset, inner⟩ := ih
    rw [List.append_assoc] at offset
    refine ⟨first :: front, stop, congrArg (first :: ·) tokens, offset, ?_⟩
    intro token member
    rcases List.mem_cons.mp member with rfl | later
    · exact kind
    · exact inner token later
  | ignored _ _ ih | faulty _ _ _ _ ih | unclosed _ _ _ ih =>
    rw [List.append_assoc] at ih
    exact ih

theorem token_spelled (tiling : Tiling before rest scan) : ∀ token ∈ scan.tokens, token.isEnd = true ∨
    ∃ text after, Stands (before ++ rest) token.pos.offset text after ∧ text ≠ [] ∧ token.lexeme = Glyph.encode text := by
  induction tiling with
  | done here =>
    intro token member
    obtain rfl := List.mem_singleton.mp member
    exact .inl rfl
  | @token before text rest _ _ here spelled some _ _ ih =>
    intro token member
    rcases List.mem_cons.mp member with rfl | later
    · exact .inr ⟨text, rest, ⟨before, (List.append_assoc _ _ _).symm, here⟩, some, spelled⟩
    · rw [← List.append_assoc]
      exact ih token later
  | ignored _ _ ih | faulty _ _ _ _ ih | unclosed _ _ _ ih =>
    rw [List.append_assoc] at ih
    exact ih

theorem ordered (tiling : Tiling before rest scan) :
    scan.tokens.Pairwise fun first second => first.pos.offset < second.pos.offset ∧ first.stop ≤ second.pos.offset := by
  induction tiling with
  | done here => exact List.pairwise_singleton _ _
  | @token before text rest scan first here spelled some _ tail ih =>
    refine List.pairwise_cons.mpr ⟨?_, ih⟩
    intro second member
    have further := tail.token_after second member
    have taken := Glyph.length_encode_pos some
    rw [Glyph.length_encode_append] at further
    rw [Token.stop, spelled]
    omega
  | ignored _ _ ih | faulty _ _ _ _ ih | unclosed _ _ _ ih => exact ih

/-- Every piece takes a byte, and gives at most one token or one error. -/
theorem bounded (tiling : Tiling before rest scan) :
    scan.tokens.length + scan.errors.length ≤ (Glyph.encode rest).length + 1 := by
  have taken : ∀ text rest : List Glyph, text ≠ [] → (Glyph.encode rest).length < (Glyph.encode (text ++ rest)).length := by
    intro text rest some
    have taken := Glyph.length_encode_pos some
    rw [Glyph.length_encode_append]
    omega
  induction tiling with
  | done here => exact Nat.le_refl _
  | @token _ text rest scan token _ _ some _ _ ih =>
    have less := taken text rest some
    have more : (scan.addToken token).tokens.length = scan.tokens.length + 1 := rfl
    have same : (scan.addToken token).errors.length = scan.errors.length := rfl
    omega
  | @ignored _ text rest scan _ _ ih =>
    rw [Glyph.length_encode_append]
    omega
  | @faulty _ text rest scan _ _ _ _ some _ _ ih =>
    have less := taken text rest some
    exact Nat.le_trans (Nat.succ_le_succ ih) (by omega)
  | @unclosed _ text rest scan pos _ opens _ ih =>
    obtain ⟨body, rfl, _⟩ := opens
    have less := taken _ rest (List.cons_ne_nil (.char '/') (.char '*' :: body))
    exact Nat.le_trans (Nat.succ_le_succ ih) (by omega)

theorem error_within (tiling : Tiling before rest scan) : ∀ error ∈ scan.errors, error.lexical = true ∧
    error.token.pos.offset ≤ (Glyph.encode (before ++ rest)).length := by
  induction tiling with
  | done here => exact fun error none => nomatch none
  | token _ _ _ _ _ ih | ignored _ _ ih =>
    rw [List.append_assoc] at ih
    exact ih
  | @faulty before text rest _ _ _ _ here _ _ _ ih =>
    intro error member
    rcases List.mem_cons.mp member with rfl | later
    · refine ⟨rfl, Nat.le_trans (Nat.le_of_eq here) ?_⟩
      rw [Glyph.length_encode_append]
      omega
    · rw [← List.append_assoc]
      exact ih error later
  | @unclosed before text rest _ _ stop _ _ ih =>
    rw [List.append_assoc] at ih
    intro error member
    rcases List.mem_cons.mp member with rfl | later
    · refine ⟨rfl, Nat.le_trans (Nat.le_of_eq stop) ?_⟩
      rw [← List.append_assoc, Glyph.length_encode_append (before ++ text)]
      omega
    · exact ih error later

/-- Text outside the tokens accounts for its own bytes, and the rest of the source for the others. -/
private theorem covered_gap {before text rest : List Glyph} {scan : Scan} {errors : List Diagnostic}
    (tail : Tiling (before ++ text) rest scan) (explained : Explained errors (Glyph.encode before).length text rest)
    (more : ∀ error ∈ scan.errors, error ∈ errors)
    (behind : ∀ index, (Glyph.encode (before ++ text)).length ≤ index → index < (Glyph.encode (before ++ text ++ rest)).length →
      Covered (before ++ text ++ rest) scan (Glyph.encode (before ++ text)).length index) :
    ∀ index, (Glyph.encode before).length ≤ index → index < (Glyph.encode (before ++ (text ++ rest))).length →
      Covered (before ++ (text ++ rest)) ⟨scan.tokens, errors⟩ (Glyph.encode before).length index := by
  intro index after within
  rw [← List.append_assoc] at within ⊢
  have size := Glyph.length_encode_append before text
  by_cases inside : index < (Glyph.encode (before ++ text)).length
  · refine .inr ⟨_, text, rest, Nat.le_refl _, ⟨⟨before, rfl, rfl⟩, ⟨after, size ▸ inside⟩, ?_⟩, explained⟩
    intro token member
    exact .inr (size ▸ tail.token_after token member)
  · rcases behind index (Nat.le_of_not_lt inside) within with found | ⟨offset, other, left, later, gap, why⟩
    · exact .inl found
    · exact .inr ⟨offset, other, left, by omega, gap, why.more more⟩

/-- What became of each byte. -/
theorem covered (tiling : Tiling before rest scan) :
    ∀ index, (Glyph.encode before).length ≤ index → index < (Glyph.encode (before ++ rest)).length →
      Covered (before ++ rest) scan (Glyph.encode before).length index := by
  induction tiling with
  | done here =>
    intro index after within
    rw [List.append_nil] at within
    omega
  | @token before text rest scan first here spelled _ _ tail ih =>
    intro index after within
    rw [← List.append_assoc] at within ⊢
    have stop : first.stop = (Glyph.encode (before ++ text)).length := by
      rw [Token.stop, here, spelled, Glyph.length_encode_append]
    by_cases inside : index < (Glyph.encode (before ++ text)).length
    · exact .inl ⟨first, List.mem_cons_self, here ▸ after, stop ▸ inside⟩
    · rcases ih index (Nat.le_of_not_lt inside) within with ⟨token, member, spans⟩ | ⟨offset, other, left, later, gap, why⟩
      · exact .inl ⟨token, List.mem_cons_of_mem _ member, spans⟩
      · refine .inr ⟨offset, other, left, ?_, ⟨gap.stands, gap.inside, ?_⟩, why⟩
        · rw [Glyph.length_encode_append] at later
          omega
        · intro token member
          rcases List.mem_cons.mp member with rfl | last
          · exact .inl (stop ▸ later)
          · exact gap.apart token last
  | ignored silent tail ih => exact covered_gap tail (.inl silent) (fun _ => id) ih
  | faulty here _ fault tail ih =>
    refine covered_gap tail (.inr (.inl ⟨_, List.mem_cons_self, here, ?_⟩)) (fun _ => List.mem_cons_of_mem _) ih
    exact here ▸ fault
  | unclosed stop opens tail ih =>
    refine covered_gap tail (.inr (.inr ⟨opens, _, List.mem_cons_self, rfl, ?_⟩)) (fun _ => List.mem_cons_of_mem _) ih
    rw [Glyph.length_encode_append] at stop
    exact stop

end Tiling

theorem Stands.starts {source : Bytes} {offset : Nat} {text after : List Glyph}
    (stands : Stands (Glyph.decode source) offset text after) : Glyph.encode text <+: source.drop offset := by
  obtain ⟨before, whole, rfl⟩ := stands
  refine ⟨Glyph.encode after, ?_⟩
  rw [← Glyph.encode_decode source, whole, Glyph.encode_append, Glyph.encode_append, List.append_assoc, List.drop_left]

/-- A scan that holds what the source holds: `front` are its tokens before the end. -/
structure Scan.Faithful (scan : Scan) (source : Bytes) (front : List Token) (stop : Position) : Prop where
  tokens : scan.tokens = front ++ [.endAt stop]
  stops : stop.offset = source.length
  kinds : ∀ token ∈ front, token.kind ≠ .eof ∧ token.kind ≠ .illegal
  spelled : ∀ token ∈ front, token.lexeme ≠ [] ∧ token.lexeme <+: source.drop token.pos.offset
  ordered : scan.tokens.Pairwise fun first second =>
    first.pos.offset < second.pos.offset ∧ first.stop ≤ second.pos.offset
  bounded : scan.tokens.length + scan.errors.length ≤ source.length + 1
  lexical : ∀ error ∈ scan.errors, error.lexical = true ∧ error.token.pos.offset ≤ source.length
  /-- Without errors, what is not in a token is ignored. -/
  silent : scan.errors = [] → ∀ index < source.length, InToken front index ∨
    ∃ offset text after, Gap (Glyph.decode source) scan.tokens index offset text after ∧ Ignored text after
  /-- With errors, there is one for what is neither in a token nor ignored. -/
  explained : ∀ index < source.length, InToken front index ∨
    ∃ offset text after, Gap (Glyph.decode source) scan.tokens index offset text after ∧
      Explained scan.errors offset text after

theorem scan_tiling (source : Bytes) : Tiling [] (Glyph.decode source) (scan source) :=
  .ofPieces [] (Glyph.decode source) rfl

/-- Every byte of a source ends up in a token, in text that is ignored or in text that is reported,
and the tokens spell the source where they stand. -/
theorem scan_faithful (source : Bytes) : ∃ front stop, (scan source).Faithful source front stop := by
  have tiling := scan_tiling source
  have whole : (Glyph.encode ([] ++ Glyph.decode source)).length = source.length := by
    rw [List.nil_append, Glyph.encode_decode]
  obtain ⟨front, stop, tokens, stops, kinds⟩ := tiling.ends
  have bounded := tiling.bounded
  have lexical := tiling.error_within
  rw [Glyph.encode_decode] at bounded
  rw [whole] at stops lexical
  have explained : ∀ index < source.length, InToken front index ∨
      ∃ offset text after, Gap (Glyph.decode source) (scan source).tokens index offset text after ∧
        Explained (scan source).errors offset text after := by
    intro index within
    rcases tiling.covered index (Nat.zero_le _) (whole ▸ within) with
      ⟨token, member, after, before⟩ | ⟨offset, text, after, _, gap, why⟩
    · rw [tokens] at member
      rcases List.mem_append.mp member with inner | last
      · exact .inl ⟨token, inner, after, before⟩
      · -- The token at the end spans nothing.
        obtain rfl := List.mem_singleton.mp last
        have past : stop.offset ≤ index := after
        omega
    · exact .inr ⟨offset, text, after, gap, why⟩
  refine ⟨front, stop, tokens, stops, kinds, ?_, tiling.ordered, bounded, lexical, ?_, explained⟩
  · intro token member
    have found := tiling.token_spelled token (tokens ▸ List.mem_append_left _ member)
    rcases found with isEnd | ⟨text, after, stands, some, spelled⟩
    · exact absurd (beq_iff_eq.mp isEnd) (kinds token member).1
    · rw [spelled]
      exact ⟨List.ne_nil_of_length_pos (Glyph.length_encode_pos some), stands.starts⟩
  · intro clean index within
    rcases explained index within with found | ⟨offset, text, after, gap, silent | ⟨_, member, _⟩ | ⟨_, _, member, _⟩⟩
    · exact .inl found
    · exact .inr ⟨offset, text, after, gap, silent⟩
    · exact absurd member (clean ▸ List.not_mem_nil)
    · exact absurd member (clean ▸ List.not_mem_nil)

end Treewalk
