import Treewalk.Proofs.QuotedText
import Treewalk.Proofs.RoundingIntervals
import Treewalk.Proofs.TextLines

/-! The notation for trees can be read in one way only. A text is a word, a constant or a list in parentheses;
which of them it is can be seen where it starts, and a delimiter or a closing mark tells where it ends. -/

namespace Treewalk

inductive Shape where
  | word (text : Bytes)
  | constant (value : Literal)
  | list (parts : List Shape)

namespace Shape

mutual

def text : Shape → Bytes
  | .word text => text
  | .constant value => value.text
  | .list parts => utf8 '(' ++ Bytes.joinWith (utf8 ' ') (textEach parts) ++ utf8 ')'

def textEach : List Shape → List Bytes
  | [] => []
  | shape :: rest => shape.text :: textEach rest

end

@[simp] theorem textEach_eq_map (shapes : List Shape) : textEach shapes = shapes.map text := by
  induction shapes with
  | nil => rfl
  | cons shape rest ih => rw [textEach, ih, List.map_cons]

end Shape

def separators : List UInt8 := [0x0A, 0x20, 0x29]

def delimiters : List UInt8 := 0x22 :: 0x28 :: separators

/-- What follows does not belong to the shape before it. -/
def Ended (rest : Bytes) : Prop :=
  ∀ byte ∈ rest.head?, byte ∈ separators

theorem Ended.cons {byte : UInt8} (separates : byte ∈ separators) (rest : Bytes) : Ended (byte :: rest) := by
  intro first same
  obtain rfl := Option.mem_some.mp same
  exact separates

structure Solid (text : Bytes) : Prop where
  filled : text ≠ []
  bytes : ∀ byte ∈ text, byte ∉ delimiters

theorem solid_iff (text : Bytes) : (!text.isEmpty && text.all fun byte => !delimiters.contains byte) = true ↔ Solid text := by
  simp only [Bool.and_eq_true, List.all_eq_true, Bool.not_eq_true', List.isEmpty_eq_false_iff, List.contains_eq_mem,
    decide_eq_false_iff_not]
  exact ⟨fun ⟨filled, bytes⟩ => ⟨filled, bytes⟩, fun ⟨filled, bytes⟩ => ⟨filled, bytes⟩⟩

instance (text : Bytes) : Decidable (Solid text) :=
  decidable_of_iff _ (solid_iff text)

namespace Solid

/-- Two solid texts end at the same place. -/
theorem append {one two rest behind : Bytes} (first : Solid one) (second : Solid two) (ended : Ended rest)
    (also : Ended behind) (same : one ++ rest = two ++ behind) : one = two ∧ rest = behind := by
  obtain ⟨-, bytes⟩ := first
  obtain ⟨-, others⟩ := second
  have inside {byte : UInt8} (separates : byte ∈ separators) : byte ∈ delimiters :=
    List.mem_cons_of_mem _ (List.mem_cons_of_mem _ separates)
  induction one generalizing two with
  | nil =>
    cases two with
    | nil => exact ⟨rfl, same⟩
    | cons byte two =>
      rw [List.nil_append] at same
      rw [same] at ended
      exact absurd (inside (ended byte rfl)) (others byte List.mem_cons_self)
  | cons byte one ih =>
    cases two with
    | nil =>
      rw [List.nil_append] at same
      rw [← same] at also
      exact absurd (inside (also byte rfl)) (bytes byte List.mem_cons_self)
    | cons next two =>
      obtain ⟨rfl, tail⟩ := List.cons.inj same
      obtain ⟨rfl, left⟩ := ih tail (List.forall_mem_cons.mp bytes).2 (List.forall_mem_cons.mp others).2
      exact ⟨rfl, left⟩

theorem unstarted {text : Bytes} (solid : Solid text) {byte : UInt8} (delimits : byte ∈ delimiters)
    (rest behind : Bytes) : text ++ rest ≠ byte :: behind := by
  intro same
  obtain ⟨filled, bytes⟩ := solid
  cases text with
  | nil => exact filled rfl
  | cons first text =>
    rw [(List.cons.inj same).1] at bytes
    exact bytes byte List.mem_cons_self delimits

end Solid

/-- Can the text be the start of a number? A minus alone cannot. -/
def startsNumber : Bytes → Bool
  | [] => false
  | byte :: rest => byte == 0x2D && !rest.isEmpty || 0x30 ≤ byte && byte ≤ 0x39

private theorem numberLiteralText_solid {x : Float} (finite : IsFinite x) :
    Solid (numberLiteralText x) ∧ startsNumber (numberLiteralText x) = true := by
  obtain ⟨negative, magnitude, reads⟩ := finite
  have shown := Decimal.positional_shows magnitude.shortest_lt
  obtain ⟨byte, rest, same, least, most⟩ := shown.starts
  have digits : ∀ byte ∈ magnitude.shortest.positional, byte ∉ delimiters := by
    intro byte member delimits
    simp only [delimiters, separators, List.mem_cons, List.not_mem_nil, or_false] at delimits
    rcases shown.bytes byte member with rfl | ⟨least, _⟩
    · exact absurd delimits (by decide)
    · rcases delimits with rfl | rfl | rfl | rfl | rfl <;> exact absurd least (by decide)
  rw [numberLiteralText_finite reads]
  cases negative with
  | false =>
    refine ⟨⟨?_, digits⟩, ?_⟩
    · simp [Decimal.signed, same]
    · simp [Decimal.signed, same, startsNumber, least, most]
  | true =>
    refine ⟨⟨?_, ?_⟩, ?_⟩
    · simp [Decimal.signed, utf8]
    · intro byte member
      rcases List.mem_cons.mp member with rfl | later
      · decide
      · exact digits byte later
    · simp [Decimal.signed, same, startsNumber, utf8]

def constantWords : List Bytes :=
  [.ofString "null", .ofString "true", .ofString "false"]

/-- A solid text that does not look like a constant. -/
structure Word (text : Bytes) : Prop where
  solid : Solid text
  worded : startsNumber text = false
  free : text ∉ constantWords

instance (text : Bytes) : Decidable (Word text) :=
  decidable_of_iff (Solid text ∧ startsNumber text = false ∧ text ∉ constantWords)
    ⟨fun ⟨solid, worded, free⟩ => ⟨solid, worded, free⟩, fun ⟨solid, worded, free⟩ => ⟨solid, worded, free⟩⟩

namespace Shape

/-- The leaf that a text stands for, unless it is a number. -/
def ofText (text : Bytes) : Shape :=
  if text = .ofString "null" then .constant .null
  else if text = .ofString "true" then .constant (.bool true)
  else if text = .ofString "false" then .constant (.bool false)
  else .word text

inductive Leaf : Shape → Prop where
  | word {text : Bytes} (word : Word text) : Leaf (.word text)
  | null : Leaf (.constant .null)
  | bool (value : Bool) : Leaf (.constant (.bool value))
  | number {value : Float} (finite : IsFinite value) : Leaf (.constant (.number value))

/-- The shape can be told from its text. -/
inductive Readable : Shape → Prop where
  | leaf {shape : Shape} (plain : Leaf shape) : Readable shape
  | quoted (text : Bytes) : Readable (.constant (.string text))
  | list {parts : List Shape} (each : ∀ part ∈ parts, part.Readable) : Readable (.list parts)

theorem Leaf.solid {shape : Shape} (leaf : Leaf shape) : Solid shape.text := by
  cases leaf with
  | word word => exact word.solid
  | null => decide +kernel
  | bool value => cases value <;> decide +kernel
  | number finite => exact (numberLiteralText_solid finite).1

private theorem Leaf.number_or {shape : Shape} (leaf : Leaf shape) :
    (∃ value, IsFinite value ∧ shape = .constant (.number value)) ∨
      startsNumber shape.text = false ∧ ofText shape.text = shape := by
  cases leaf with
  | word word =>
    have free := word.free
    simp only [constantWords, List.mem_cons, List.not_mem_nil, or_false, not_or] at free
    exact .inr ⟨word.worded, by simp [ofText, Shape.text, free]⟩
  | null => exact .inr ⟨rfl, rfl⟩
  | bool value => cases value <;> exact .inr ⟨rfl, rfl⟩
  | number finite => exact .inl ⟨_, finite, rfl⟩

theorem Leaf.text_injective {one two : Shape} (first : Leaf one) (second : Leaf two) (same : one.text = two.text) :
    one = two := by
  rcases first.number_or with ⟨x, finite, rfl⟩ | ⟨worded, reads⟩
  · have starts := (numberLiteralText_solid finite).2
    rcases second.number_or with ⟨y, also, rfl⟩ | ⟨worded, _⟩
    · rw [numberLiteralText_injective finite also same]
    · rw [← same] at worded
      exact absurd (starts.symm.trans worded) (by decide)
  · rcases second.number_or with ⟨y, also, rfl⟩ | ⟨_, readsOther⟩
    · rw [same] at worded
      exact absurd ((numberLiteralText_solid also).2.symm.trans worded) (by decide)
    · rw [← reads, same, readsOther]

/-- Whatever stands behind it, the text of the shape is the text of no other one. -/
def Determined (one : Shape) : Prop :=
  ∀ (two : Shape) (rest behind : Bytes), two.Readable → Ended rest → Ended behind → one.text ++ rest = two.text ++ behind →
    one = two ∧ rest = behind

def spaced (parts : List Shape) : Bytes :=
  parts.flatMap fun part => 0x20 :: part.text

private theorem joinWith_spaced (part : Shape) (rest : List Shape) :
    Bytes.joinWith (utf8 ' ') ((part :: rest).map text) = part.text ++ spaced rest := by
  induction rest generalizing part with
  | nil => simp [Bytes.joinWith, spaced]
  | cons next rest ih =>
    have joined : Bytes.joinWith (utf8 ' ') ((part :: next :: rest).map text) =
        part.text ++ utf8 ' ' ++ Bytes.joinWith (utf8 ' ') ((next :: rest).map text) := rfl
    rw [joined, ih]
    simp [spaced, utf8]

theorem text_list_cons (part : Shape) (rest : List Shape) (behind : Bytes) :
    (Shape.list (part :: rest)).text ++ behind = 0x28 :: (part.text ++ (spaced rest ++ 0x29 :: behind)) := by
  rw [text, textEach_eq_map, joinWith_spaced]
  simp [utf8]

theorem text_list_nil (behind : Bytes) : (Shape.list []).text ++ behind = 0x28 :: 0x29 :: behind := rfl

private theorem ended_spaced (parts : List Shape) (rest : Bytes) : Ended (spaced parts ++ 0x29 :: rest) := by
  cases parts with
  | nil => exact .cons (by decide) rest
  | cons part parts => exact .cons (by decide) _

private theorem spaced_append {ones twos : List Shape} (each : ∀ part ∈ ones, Determined part)
    (other : ∀ part ∈ twos, part.Readable) {rest behind : Bytes}
    (same : spaced ones ++ 0x29 :: rest = spaced twos ++ 0x29 :: behind) : ones = twos ∧ rest = behind := by
  induction ones generalizing twos with
  | nil =>
    cases twos with
    | nil => exact ⟨rfl, (List.cons.inj same).2⟩
    | cons two twos => exact absurd (List.cons.inj same).1 (by decide)
  | cons one ones ih =>
    cases twos with
    | nil => exact absurd (List.cons.inj same).1 (by decide)
    | cons two twos =>
      obtain ⟨here, later⟩ := List.forall_mem_cons.mp each
      obtain ⟨there, others⟩ := List.forall_mem_cons.mp other
      simp only [spaced, List.flatMap_cons, List.cons_append, List.append_assoc, List.cons.injEq, true_and] at same
      obtain ⟨rfl, tail⟩ := here two _ _ there (ended_spaced ones rest) (ended_spaced twos behind) same
      obtain ⟨rfl, left⟩ := ih later others tail
      exact ⟨rfl, left⟩

/-- A shape does not start as a list ends. -/
private theorem Readable.opens {shape : Shape} (readable : shape.Readable) (rest behind : Bytes) :
    shape.text ++ rest ≠ 0x29 :: behind := by
  cases readable with
  | leaf plain => exact plain.solid.unstarted (by decide) rest behind
  | quoted text => exact fun same => absurd (List.cons.inj same).1 (by decide)
  | list => exact fun same => absurd (List.cons.inj same).1 (by decide)

private theorem list_determined {ones : List Shape} (readable : ∀ part ∈ ones, part.Readable)
    (each : ∀ part ∈ ones, Determined part) {twos : List Shape} (other : ∀ part ∈ twos, part.Readable) {rest behind : Bytes}
    (same : (Shape.list ones).text ++ rest = (Shape.list twos).text ++ behind) :
    Shape.list ones = .list twos ∧ rest = behind := by
  cases ones with
  | nil =>
    cases twos with
    | nil => exact ⟨rfl, List.append_cancel_left same⟩
    | cons two twos =>
      rw [text_list_nil, text_list_cons] at same
      exact absurd (List.cons.inj same).2.symm ((other two List.mem_cons_self).opens _ _)
  | cons one ones =>
    obtain ⟨here, later⟩ := List.forall_mem_cons.mp each
    cases twos with
    | nil =>
      rw [text_list_nil, text_list_cons] at same
      exact absurd (List.cons.inj same).2 ((readable one List.mem_cons_self).opens _ _)
    | cons two twos =>
      obtain ⟨there, others⟩ := List.forall_mem_cons.mp other
      rw [text_list_cons, text_list_cons] at same
      obtain ⟨rfl, tail⟩ := here two _ _ there (ended_spaced ones rest) (ended_spaced twos behind) (List.cons.inj same).2
      obtain ⟨rfl, left⟩ := spaced_append later others tail
      exact ⟨rfl, left⟩

/-- A text has one shape, and one end. -/
theorem Readable.determined {one : Shape} (readable : one.Readable) : Determined one := by
  -- The first byte tells leaves, quoted texts and lists apart; only a list needs what holds of its parts.
  induction readable with
  | leaf plain =>
    intro two rest behind readable ended also same
    cases readable with
    | leaf other =>
      obtain ⟨text, left⟩ := plain.solid.append other.solid ended also same
      exact ⟨plain.text_injective other text, left⟩
    | quoted text => exact absurd same (plain.solid.unstarted (by decide) _ _)
    | list => exact absurd same (plain.solid.unstarted (by decide) _ _)
  | quoted content =>
    intro two rest behind readable _ _ same
    cases readable with
    | leaf other => exact absurd same.symm (other.solid.unstarted (by decide) _ _)
    | quoted text =>
      obtain ⟨rfl, left⟩ := Text.quote_append same
      exact ⟨rfl, left⟩
    | list => exact absurd (List.cons.inj same).1 (by decide)
  | list each ih =>
    intro two rest behind readable _ _ same
    cases readable with
    | leaf other => exact absurd same.symm (other.solid.unstarted (by decide) _ _)
    | quoted text => exact absurd (List.cons.inj same).1 (by decide)
    | list other => exact list_determined each ih other same

/-- A shape stands on one line. -/
theorem Readable.newline {shape : Shape} (readable : shape.Readable) : 0x0A ∉ shape.text := by
  induction readable with
  | leaf plain => exact fun inside => plain.solid.bytes _ inside (by decide)
  | quoted text => exact Text.quote_newline text
  | @list parts _ ih =>
    cases parts with
    | nil => decide
    | cons part rest =>
      obtain ⟨here, later⟩ := List.forall_mem_cons.mp ih
      have between : 0x0A ∉ spaced rest := by
        intro inside
        obtain ⟨other, member, inside⟩ := List.mem_flatMap.mp inside
        rcases List.mem_cons.mp inside with space | inside
        · exact absurd space (by decide)
        · exact later other member inside
      rw [← List.append_nil (Shape.text _), text_list_cons]
      simp [here, between]

def ofLines (shapes : List Shape) : Bytes :=
  shapes.flatMap fun shape => shape.text ++ Bytes.newline

theorem lines_ofLines {shapes : List Shape} (readable : ∀ shape ∈ shapes, shape.Readable) :
    Bytes.lines (ofLines shapes) = shapes.map fun shape => shape.text ++ Bytes.newline := by
  induction shapes with
  | nil => rfl
  | cons shape shapes ih =>
    obtain ⟨here, later⟩ := List.forall_mem_cons.mp readable
    have first : ofLines (shape :: shapes) = shape.text ++ 0x0A :: ofLines shapes :=
      List.append_assoc _ _ _
    rw [first, Bytes.lines_newline here.newline, ih later, List.map_cons]

/-- Lines that show shapes tell which shapes they are. -/
theorem ofLines_injective {ones twos : List Shape} (readable : ∀ shape ∈ ones, shape.Readable)
    (other : ∀ shape ∈ twos, shape.Readable) (same : ofLines ones = ofLines twos) : ones = twos := by
  have ended (shapes : List Shape) : Ended (Bytes.newline ++ ofLines shapes) := .cons (by decide) _
  induction ones generalizing twos with
  | nil =>
    cases twos with
    | nil => rfl
    | cons two twos => simp [ofLines, Bytes.newline] at same
  | cons one ones ih =>
    cases twos with
    | nil => simp [ofLines, Bytes.newline] at same
    | cons two twos =>
      obtain ⟨here, later⟩ := List.forall_mem_cons.mp readable
      obtain ⟨there, others⟩ := List.forall_mem_cons.mp other
      simp only [ofLines, List.flatMap_cons, List.append_assoc] at same
      obtain ⟨rfl, tail⟩ := here.determined two _ _ there (ended ones) (ended twos) same
      rw [ih later others (List.append_cancel_left tail)]

end Shape
end Treewalk
