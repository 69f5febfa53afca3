import Treewalk.Machine

/-! New machines: the built-in functions are bound in the global frame. -/

namespace Treewalk.Machine

def defaultMaxDepth : Nat := 1000

/-- More fuel than any run could spend. -/
def ampleFuel : Nat := 1000000000000000000

structure Options where
  input : Input := ⟨[], false⟩
  /-- How many writes succeed; all of them when there is no such number. -/
  allowance : Option Nat := none
  sink : Sink := .limited allowance
  /-- Numbers below one stand for the default. -/
  maxDepth : Int := 0
  tracing : Bool := false
  /-- Adds functions through which a host can fail, raise errors and call back. -/
  hostFunctions : Bool := false
  clock : Nat → Float := fun _ => 0.0
  search : FuzzySearch := .standard

def builtins : List (String × Int × Primitive) :=
  [("clock", 0, .clock), ("print", 1, .print), ("input", 1, .input)]

def hostFunctions : List (String × Int × Primitive) :=
  [("fail", 0, .fail), ("raise", 1, .raise), ("apply", 2, .apply)]

/-- Binds a built-in function in the global frame. -/
def install (machine : Machine) (entry : String × Int × Primitive) : Machine :=
  let name := Bytes.ofString entry.1
  let native := { id := machine.nextId, name, arity := entry.2.1, primitive := entry.2.2 }
  { machine with
    heap := machine.heap.define machine.globals name (.callable (.native native))
    nextId := machine.nextId + 1 }

/-- A machine with one empty frame, the global one. -/
def bare (options : Options) : Machine :=
  let (globals, heap) := Heap.empty.alloc none
  { heap, globals, frame := globals, depth := 0
    maxDepth := if options.maxDepth > 0 then options.maxDepth.toNat else defaultMaxDepth
    input := options.input, output := { sink := options.sink }
    tracing := options.tracing, trace := #[], nextId := 0, clock := options.clock, ticks := 0
    search := options.search }

def start (options : Options) : Machine :=
  let machine := builtins.foldl install (bare options)
  if options.hostFunctions then
    let machine := hostFunctions.foldl install machine
    { machine with
      heap := machine.heap.define machine.globals (.ofString "hollow") .hollow }
  else machine

end Treewalk.Machine
