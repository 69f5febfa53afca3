import Treewalk.RuntimeError
import Treewalk.Scope.Suggestion
import Treewalk.Value

/-! Variables. A frame binds names to values and knows the frames around it; frames live in a heap,
since a function may keep the frame in which it was declared. -/

namespace Treewalk

/-- The frames around a frame, innermost first, are fixed when it is made. -/
structure Frame where
  outer : List FrameId
  bindings : List (Bytes × Value)
  deriving Inhabited

/-- Binds a name anew, in its old place if it was bound before. -/
def bindName (name : Bytes) (value : Value) : List (Bytes × Value) → List (Bytes × Value)
  | [] => [(name, value)]
  | (other, old) :: rest =>
    if other == name then (name, value) :: rest else (other, old) :: bindName name value rest

namespace Frame

def get? (frame : Frame) (name : Bytes) : Option Value :=
  frame.bindings.lookup name

def set (frame : Frame) (name : Bytes) (value : Value) : Frame :=
  { frame with bindings := bindName name value frame.bindings }

def names (frame : Frame) : List Bytes :=
  frame.bindings.map Prod.fst

end Frame

structure Heap where
  frames : Array Frame
  deriving Inhabited

/-- Puts a name into an ascending list, once. -/
def insertName (name : Bytes) : List Bytes → List Bytes
  | [] => [name]
  | other :: rest =>
    if name == other then other :: rest
    else if name.precedes other then name :: other :: rest
    else other :: insertName name rest

def sortNames (names : List Bytes) : List Bytes :=
  names.foldr insertName []

namespace Heap

def empty : Heap := ⟨#[]⟩

/-- A frame and the frames around it, innermost first. -/
def chain (heap : Heap) (frame : FrameId) : List FrameId :=
  match heap.frames[frame]? with
  | some found => frame :: found.outer
  | none => []

/-- A new frame without bindings inside `parent`. -/
def alloc (heap : Heap) (parent : Option FrameId) : FrameId × Heap :=
  let outer := (parent.map heap.chain).getD []
  (heap.frames.size, ⟨heap.frames.push ⟨outer, []⟩⟩)

def local? (heap : Heap) (frame : FrameId) (name : Bytes) : Option Value :=
  heap.frames[frame]? >>= fun found => found.get? name

/-- The first of the frames that binds the name, with the value it binds. -/
def findIn? (heap : Heap) (name : Bytes) : List FrameId → Option (FrameId × Value)
  | [] => none
  | frame :: rest =>
    match heap.local? frame name with
    | some value => some (frame, value)
    | none => heap.findIn? name rest

/-- The nearest binding of a name that is visible from a frame. -/
def find? (heap : Heap) (frame : FrameId) (name : Bytes) : Option (FrameId × Value) :=
  heap.findIn? name (heap.chain frame)

def define (heap : Heap) (frame : FrameId) (name : Bytes) (value : Value) : Heap :=
  ⟨heap.frames.modify frame (·.set name value)⟩

def defineAll (heap : Heap) (frame : FrameId) (bindings : List (Bytes × Value)) : Heap :=
  bindings.foldl (fun heap binding => heap.define frame binding.1 binding.2) heap

def localNames (heap : Heap) (frame : FrameId) : List Bytes :=
  (heap.frames[frame]?.map Frame.names).getD []

/-- The names bound in the frames and not yet seen; inner frames come first, and within a frame the
names ascend. -/
def namesIn (heap : Heap) (seen : List Bytes) : List FrameId → List Bytes
  | [] => []
  | frame :: rest =>
    let fresh := sortNames ((heap.localNames frame).filter fun name => !seen.contains name)
    fresh ++ heap.namesIn (seen ++ fresh) rest

def names (heap : Heap) (frame : FrameId) : List Bytes :=
  heap.namesIn [] (heap.chain frame)

def undefinedError (heap : Heap) (frame : FrameId) (name : Token) (search : FuzzySearch) :
    RuntimeError :=
  let guess := search.suggest name.lexeme (heap.names frame)
  ⟨name, .undefinedVariable (if guess.isEmpty then none else some guess)⟩

/-- The value of the nearest binding of a name. -/
def get (heap : Heap) (frame : FrameId) (name : Token) (search : FuzzySearch := .standard) :
    Except RuntimeError Value :=
  match heap.find? frame name.lexeme with
  | none => .error (heap.undefinedError frame name search)
  | some (_, .uninitialized) => .error ⟨name, .uninitializedVariable⟩
  | some (_, value) => .ok value

/-- The frame with the nearest binding of a name. -/
def owner (heap : Heap) (frame : FrameId) (name : Token) (search : FuzzySearch := .standard) :
    Except RuntimeError FrameId :=
  match heap.find? frame name.lexeme with
  | none => .error (heap.undefinedError frame name search)
  | some (owner, _) => .ok owner

/-- Changes the nearest binding of a name. -/
def assign (heap : Heap) (frame : FrameId) (name : Token) (value : Value)
    (search : FuzzySearch := .standard) : Except RuntimeError Heap :=
  (heap.owner frame name search).map fun owner => heap.define owner name.lexeme value

end Heap
end Treewalk
