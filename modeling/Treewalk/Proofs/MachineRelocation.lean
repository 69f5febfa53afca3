import Treewalk.Machine
import Treewalk.Machine.Operator
import Treewalk.Proofs.Relocation

/-! Values and frames with the places in them moved. Only a declared function keeps places, in its
body; no operator and no lookup looks at them. -/

namespace Treewalk

def Closure.relocate (move : Position → Position) (closure : Closure) : Closure :=
  { closure with body := closure.body.map (Stmt.relocate move) }

def Callable.relocate (move : Position → Position) : Callable → Callable
  | function closure => function (closure.relocate move)
  | native builtin => native builtin

def Value.relocate (move : Position → Position) : Value → Value
  | callable value => callable (value.relocate move)
  | value => value

def relocateBindings (move : Position → Position) (bindings : List (Bytes × Value)) : List (Bytes × Value) :=
  bindings.map fun binding => (binding.1, binding.2.relocate move)

def Frame.relocate (move : Position → Position) (frame : Frame) : Frame :=
  { frame with bindings := relocateBindings move frame.bindings }

def Heap.relocate (move : Position → Position) (heap : Heap) : Heap :=
  ⟨heap.frames.map (Frame.relocate move)⟩

/-- The errors are the same, but for the place; one that the host raises keeps its own. -/
inductive RuntimeError.Moved (move : Position → Position) : RuntimeError → RuntimeError → Prop where
  | along (token : Token) (cause : Cause) : Moved move ⟨token, cause⟩ ⟨token.relocate move, cause⟩
  | fixed (error : RuntimeError) : Moved move error error

inductive Interrupt.Moved (move : Position → Position) : Interrupt → Interrupt → Prop where
  | breakLoop (keyword : Token) : Moved move (.breakLoop keyword) (.breakLoop (keyword.relocate move))
  | continueLoop (keyword : Token) : Moved move (.continueLoop keyword) (.continueLoop (keyword.relocate move))
  | returnValue (keyword : Token) (value : Value) :
      Moved move (.returnValue keyword value) (.returnValue (keyword.relocate move) (value.relocate move))
  | failure {error other : RuntimeError} (moved : error.Moved move other) : Moved move (.failure error) (.failure other)
  | host (fault : HostFault) : Moved move (.host fault) (.host fault)

variable {move : Position → Position}

theorem Value.relocate_id (value : Value) : value.relocate id = value := by
  cases value with
  | callable value =>
    cases value with
    | function closure => simp [Value.relocate, Callable.relocate, Closure.relocate, Stmt.relocate_id_eq]
    | native builtin => rfl
  | _ => rfl

theorem Interrupt.Moved.escaped {cause other : Interrupt} (moved : cause.Moved move other) :
    cause.escaped.Moved move other.escaped := by
  cases moved with
  | breakLoop keyword | continueLoop keyword | returnValue keyword value => exact .failure (.along keyword _)
  | failure same => exact .failure same
  | host fault => exact .host fault

theorem Interrupt.Moved.atCall {cause other : Interrupt} (moved : cause.Moved move other) (paren : Token) :
    (cause.atCall paren).Moved move (other.atCall (paren.relocate move)) := by
  cases moved with
  | breakLoop keyword | continueLoop keyword | returnValue keyword value => exact .failure (.along paren _)
  | failure same => exact .failure same
  | host fault =>
    rw [Interrupt.atCall, Interrupt.atCall]
    split
    · exact .host fault
    · exact .failure (.along paren _)

theorem Interrupt.Moved.refl_id (cause : Interrupt) : cause.Moved id cause := by
  cases cause with
  | breakLoop keyword => exact .breakLoop keyword
  | continueLoop keyword => exact .continueLoop keyword
  | returnValue keyword value =>
    have moved : Moved id (.returnValue keyword value) _ := .returnValue keyword value
    rwa [Token.relocate_id, Value.relocate_id] at moved
  | failure error => exact .failure (.fixed error)
  | host fault => exact .host fault

/-- An error of the host is the same wherever the program stands. -/
theorem HostError.interrupt_moved (error : HostError) : error.interrupt.Moved move error.interrupt := by
  cases error with
  | own message | wrapping text token message hint => exact .host _
  | raised token message hint => exact .failure (.fixed _)

/-- The results of a computation beside those of the same one on moved values. -/
def ResultsMoved {α β : Type} (move : Position → Position) (result : α → β) :
    Except RuntimeError α → Except RuntimeError β → Prop
  | .ok value, other => other = .ok (result value)
  | .error error, other => ∃ moved, error.Moved move moved ∧ other = .error moved

namespace Callable

@[simp] theorem relocate_arity (callable : Callable) : (callable.relocate move).arity = callable.arity := by
  cases callable <;> rfl

@[simp] theorem relocate_text (callable : Callable) : (callable.relocate move).text = callable.text := by
  cases callable <;> rfl

@[simp] theorem relocate_isNative (callable : Callable) : (callable.relocate move).isNative = callable.isNative := by
  cases callable <;> rfl

theorem relocate_callableId (callable : Callable) : (callable.relocate move).id = callable.id := by
  cases callable <;> rfl

end Callable

namespace Value

@[simp] theorem relocate_isTruthy (value : Value) : (value.relocate move).isTruthy = value.isTruthy := by
  cases value <;> rfl

@[simp] theorem relocate_text (value : Value) : (value.relocate move).text = value.text := by
  cases value with
  | callable value => exact value.relocate_text
  | _ => rfl

@[simp] theorem relocate_callable? (value : Value) :
    (value.relocate move).callable? = value.callable?.map (Callable.relocate move) := by
  cases value <;> rfl

theorem relocate_equals (first second : Value) :
    (first.relocate move).equals (second.relocate move) = first.equals second := by
  cases first with
  | callable one =>
    cases second with
    | callable two =>
      simp only [relocate, equals, Callable.relocate_callableId]
    | _ => rfl
  | _ => cases second <;> rfl

end Value

theorem Literal.toValue_relocate (literal : Literal) : literal.toValue.relocate move = literal.toValue := by
  cases literal <;> rfl

namespace Operator

private theorem repetition_moved (operator : Token) (text : Bytes) (count : Float) :
    ResultsMoved move (Value.relocate move) (repetition operator text count)
      (repetition (operator.relocate move) text count) := by
  unfold repetition
  split
  · exact ⟨_, .along operator _, rfl⟩
  · split
    · rfl
    · exact ⟨_, .along operator _, rfl⟩
  · split
    · exact ⟨_, .along operator _, rfl⟩
    · split
      · rfl
      · split
        · exact ⟨_, .along operator _, rfl⟩
        · rfl

private theorem sum_moved (operator : Token) (left right : Value) :
    ResultsMoved move (Value.relocate move) (sum operator left right)
      (sum (operator.relocate move) (left.relocate move) (right.relocate move)) := by
  cases left <;> cases right <;> first | rfl | exact ⟨_, .along operator _, rfl⟩

private theorem product_moved (operator : Token) (left right : Value) :
    ResultsMoved move (Value.relocate move) (product operator left right)
      (product (operator.relocate move) (left.relocate move) (right.relocate move)) := by
  cases left <;> cases right <;> first | rfl | exact repetition_moved .. | exact ⟨_, .along operator _, rfl⟩

private theorem arithmetic_moved (operator : Token) (left right : Float) :
    ResultsMoved move (Value.relocate move) (arithmetic operator left right)
      (arithmetic (operator.relocate move) left right) := by
  unfold arithmetic
  simp only [Token.relocate_kind]
  split
  case h_2 =>
    split
    · exact ⟨_, .along operator _, rfl⟩
    · rfl
  all_goals first | rfl | exact ⟨_, .along operator _, rfl⟩

theorem binary_moved (operator : Token) (left right : Value) :
    ResultsMoved move (Value.relocate move) (binary operator left right)
      (binary (operator.relocate move) (left.relocate move) (right.relocate move)) := by
  unfold binary
  simp only [Token.relocate_kind, Value.relocate_equals]
  split
  · rfl
  · rfl
  · exact sum_moved operator left right
  · exact product_moved operator left right
  · cases left <;> cases right <;> first | exact arithmetic_moved .. | exact ⟨_, .along operator _, rfl⟩

theorem unary_moved (operator : Token) (operand : Value) :
    ResultsMoved move (Value.relocate move) (unary operator operand)
      (unary (operator.relocate move) (operand.relocate move)) := by
  unfold unary
  simp only [Token.relocate_kind, Value.relocate_isTruthy]
  split
  · cases operand <;> first | rfl | exact ⟨_, .along operator _, rfl⟩
  · rfl
  · exact ⟨_, .along operator _, rfl⟩

theorem decides_relocate (operator : Token) (left : Value) :
    decides (operator.relocate move) (left.relocate move) = decides operator left := by
  unfold decides
  rw [Token.relocate_kind, Value.relocate_isTruthy]

end Operator

theorem bindName_relocate (name : Bytes) (value : Value) (bindings : List (Bytes × Value)) :
    bindName name (value.relocate move) (relocateBindings move bindings) =
      relocateBindings move (bindName name value bindings) := by
  unfold relocateBindings
  induction bindings with
  | nil => rfl
  | cons binding rest ih =>
    obtain ⟨other, old⟩ := binding
    simp only [List.map_cons, bindName]
    split
    · rfl
    · rw [ih, List.map_cons]

namespace Frame

theorem set_relocate (frame : Frame) (name : Bytes) (value : Value) :
    (frame.relocate move).set name (value.relocate move) = (frame.set name value).relocate move := by
  unfold set relocate
  rw [bindName_relocate]

theorem get?_relocate (frame : Frame) (name : Bytes) :
    (frame.relocate move).get? name = (frame.get? name).map (Value.relocate move) := by
  have inside : ∀ bindings : List (Bytes × Value),
      (relocateBindings move bindings).lookup name = (bindings.lookup name).map (Value.relocate move) := by
    intro bindings
    unfold relocateBindings
    induction bindings with
    | nil => rfl
    | cons binding rest ih =>
      obtain ⟨other, value⟩ := binding
      rw [List.map_cons, List.lookup_cons, List.lookup_cons]
      cases name == other with
      | true => rfl
      | false => exact ih
  exact inside frame.bindings

theorem names_relocate (frame : Frame) : (frame.relocate move).names = frame.names := by
  unfold names relocate relocateBindings
  rw [List.map_map]
  rfl

end Frame

theorem relocateBindings_id (bindings : List (Bytes × Value)) : relocateBindings id bindings = bindings := by
  simp [relocateBindings, Value.relocate_id]

namespace Heap

variable (heap : Heap)

theorem frames_relocate (frame : FrameId) :
    (heap.relocate move).frames[frame]? = heap.frames[frame]?.map (Frame.relocate move) := by
  unfold relocate
  rw [Array.getElem?_map]

theorem chain_relocate (frame : FrameId) : (heap.relocate move).chain frame = heap.chain frame := by
  unfold chain
  rw [frames_relocate]
  cases heap.frames[frame]? <;> rfl

theorem alloc_relocate (parent : Option FrameId) :
    (heap.relocate move).alloc parent = ((heap.alloc parent).1, (heap.alloc parent).2.relocate move) := by
  have around : parent.map (heap.relocate move).chain = parent.map heap.chain := by
    cases parent with
    | none => rfl
    | some frame => rw [Option.map_some, chain_relocate, Option.map_some]
  unfold alloc
  rw [around]
  simp [relocate, Frame.relocate, relocateBindings]

theorem local?_relocate (frame : FrameId) (name : Bytes) :
    (heap.relocate move).local? frame name = (heap.local? frame name).map (Value.relocate move) := by
  unfold local?
  rw [frames_relocate]
  cases heap.frames[frame]? with
  | none => rfl
  | some found => exact found.get?_relocate name

theorem find?_relocate (frame : FrameId) (name : Bytes) :
    (heap.relocate move).find? frame name =
      (heap.find? frame name).map fun found => (found.1, found.2.relocate move) := by
  unfold find?
  rw [chain_relocate]
  induction heap.chain frame with
  | nil => rfl
  | cons frame rest ih =>
    rw [findIn?, findIn?, local?_relocate]
    cases heap.local? frame name with
    | none => exact ih
    | some value => rfl

theorem define_relocate (frame : FrameId) (name : Bytes) (value : Value) :
    (heap.relocate move).define frame name (value.relocate move) = (heap.define frame name value).relocate move := by
  unfold define relocate
  congr 1
  apply Array.ext
  · simp
  · intro index _ _
    simp only [Array.getElem_modify, Array.getElem_map]
    split
    · exact Frame.set_relocate _ name value
    · rfl

theorem defineAll_relocate (frame : FrameId) (bindings : List (Bytes × Value)) :
    (heap.relocate move).defineAll frame (relocateBindings move bindings) =
      (heap.defineAll frame bindings).relocate move := by
  unfold defineAll relocateBindings
  induction bindings generalizing heap with
  | nil => rfl
  | cons binding rest ih =>
    simp only [List.map_cons, List.foldl_cons]
    rw [define_relocate]
    exact ih (heap.define frame binding.1 binding.2)

theorem names_relocate (frame : FrameId) : (heap.relocate move).names frame = heap.names frame := by
  have inside : ∀ seen frames, (heap.relocate move).namesIn seen frames = heap.namesIn seen frames := by
    intro seen frames
    induction frames generalizing seen with
    | nil => rfl
    | cons frame rest ih =>
      have here : (heap.relocate move).localNames frame = heap.localNames frame := by
        unfold localNames
        rw [frames_relocate]
        cases heap.frames[frame]? with
        | none => rfl
        | some found => exact found.names_relocate
      rw [namesIn, namesIn, here, ih]
  unfold names
  rw [chain_relocate, inside]

theorem undefinedError_moved (frame : FrameId) (name : Token) (search : FuzzySearch) :
    (heap.undefinedError frame name search).Moved move
      ((heap.relocate move).undefinedError frame (name.relocate move) search) := by
  unfold undefinedError
  rw [names_relocate, Token.relocate_lexeme]
  exact .along name _

theorem get_moved (frame : FrameId) (name : Token) (search : FuzzySearch) :
    ResultsMoved move (Value.relocate move) (heap.get frame name search)
      ((heap.relocate move).get frame (name.relocate move) search) := by
  unfold get
  rw [Token.relocate_lexeme, find?_relocate]
  cases heap.find? frame name.lexeme with
  | none => exact ⟨_, heap.undefinedError_moved frame name search, rfl⟩
  | some found =>
    obtain ⟨owner, value⟩ := found
    cases value with
    | uninitialized => exact ⟨_, .along name _, rfl⟩
    | _ => rfl

theorem owner_moved (frame : FrameId) (name : Token) (search : FuzzySearch) :
    ResultsMoved move id (heap.owner frame name search) ((heap.relocate move).owner frame (name.relocate move) search) := by
  unfold owner
  rw [Token.relocate_lexeme, find?_relocate]
  cases heap.find? frame name.lexeme with
  | none => exact ⟨_, heap.undefinedError_moved frame name search, rfl⟩
  | some found => rfl

end Heap
end Treewalk
