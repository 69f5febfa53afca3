import Treewalk.Scope
import Treewalk.Trace

/-! The state of a running program, and computations on it. A computation yields a value or is
interrupted; it may also run out of the fuel that bounds it, which tells nothing about the
program. -/

namespace Treewalk

/-- What becomes of a reader whose bytes are used up: it ends, or fails with an error. That may
happen again and again, or once before there is more to read. -/
inductive Ending where
  | always (error? : Option HostError)
  | once (error? : Option HostError) (rest : Bytes) (ending : Ending)

def Ending.error? : Ending → Option HostError
  | always error? => error?
  | once error? _ _ => error?

/-- A plain reader ends, or is broken for good. -/
instance : Coe Bool Ending where
  coe broken := .always (if broken then some .brokenRead else none)

/-- Bytes still to be read, and what comes behind the last one. -/
structure Input where
  rest : Bytes
  ending : Ending

def Ending.behind : Ending → Input
  | always error? => ⟨[], always error?⟩
  | once _ rest ending => ⟨rest, ending⟩

inductive LineRead where
  /-- A line with the newline at its end. -/
  | line (text : Bytes)
  /-- What was left without a newline. -/
  | last (text : Bytes)
  | broken (error : HostError)

/-- Takes one line; a reader that fails loses the line that it cannot finish. -/
def Input.readLine (input : Input) : LineRead × Input :=
  let line := input.rest.takeWhile (· != 0x0A)
  match input.rest.dropWhile (· != 0x0A) with
  | newline :: rest => (.line (line ++ [newline]), { input with rest })
  | [] =>
    match input.ending.error? with
    | some error => (.broken error, input.ending.behind)
    | none => (.last line, input.ending.behind)

/-- The line without its end; none when nothing was left to read. -/
def LineRead.line? : LineRead → Option Bytes
  | line text => some (text.trimEnd [0x0D, 0x0A])
  | last [] => none
  | last text => some (text.trimEnd [0x0D, 0x0A])
  | broken _ => none

/-- One write: by a program that runs, or by the session that shows a value. -/
inductive Write where
  | printed (text : Bytes)
  | echoed (text : Bytes)
  deriving DecidableEq, Repr

def Write.text : Write → Bytes
  | printed text => text
  | echoed text => text

/-- How the next writes end: all succeed, or all fail, or so many succeed before one fails. -/
inductive Sink where
  | unlimited
  | closed (error : HostError)
  | failing (count : Nat) (error : HostError) (rest : Sink)

namespace Sink

/-- Takes so many writes and refuses all others; without a number it takes all of them. -/
def limited : Option Nat → Sink
  | some allowance => failing allowance .refusedWrite (closed .refusedWrite)
  | none => unlimited

def error? : Sink → Option HostError
  | unlimited => none
  | closed error => some error
  | failing 0 error _ => some error
  | failing (_ + 1) _ _ => none

def behind : Sink → Sink
  | failing 0 _ rest => rest
  | failing (count + 1) error rest => failing count error rest
  | sink => sink

end Sink

/-- What has been written, one entry for each write, and how further writes will end. -/
structure Output where
  writes : Array Write := #[]
  sink : Sink := .unlimited

def Output.refused (output : Output) : Output :=
  { output with sink := output.sink.behind }

def Output.add (output : Output) (write : Write) : Output :=
  { output.refused with writes := output.writes.push write }

def Output.text (output : Output) : Bytes :=
  output.writes.toList.flatMap Write.text

structure Machine where
  heap : Heap
  globals : FrameId
  /-- The frame in which names are looked up. -/
  frame : FrameId
  /-- Calls under way, and how many there may be. -/
  depth : Nat
  maxDepth : Nat
  input : Input
  output : Output
  tracing : Bool
  trace : Array TraceEvent
  /-- The number of the next callable. -/
  nextId : Nat
  /-- The readings of the clock, and how many of them were taken. -/
  clock : Nat → Float
  ticks : Nat
  /-- The search for names that may have been meant. -/
  search : FuzzySearch

/-- Why a computation stopped early. The first three travel to the loop or function that they
leave. -/
inductive Interrupt where
  | breakLoop (keyword : Token)
  | continueLoop (keyword : Token)
  | returnValue (keyword : Token) (value : Value)
  | failure (error : RuntimeError)
  | host (fault : HostFault)

namespace Interrupt

/-- A keyword that found nothing to leave is an error of the program. -/
def escaped : Interrupt → Interrupt
  | breakLoop keyword => failure ⟨keyword, .misplacedBreak⟩
  | continueLoop keyword => failure ⟨keyword, .misplacedContinue⟩
  | returnValue keyword _ => failure ⟨keyword, .misplacedReturn⟩
  | interrupt => interrupt

/-- The text of an interrupt that is no error of the program. -/
def hostText : Interrupt → Bytes
  | breakLoop keyword => (RuntimeError.mk keyword .misplacedBreak).message
  | continueLoop keyword => (RuntimeError.mk keyword .misplacedContinue).message
  | returnValue keyword _ => (RuntimeError.mk keyword .misplacedReturn).message
  | failure error => error.text
  | host fault => fault.message

/-- The error of a running program that an interrupt is or holds. -/
def runtimeError? : Interrupt → Option RuntimeError
  | failure error => some error
  | host fault => fault.held?
  | _ => none

/-- What interrupts a built-in function shows at the call, unless it is or holds an error of a
running program. -/
def atCall (paren : Token) : Interrupt → Interrupt
  | failure error => failure error
  | host fault => if fault.held?.isSome then host fault else failure ⟨paren, .host fault⟩
  | signal => failure ⟨paren, .host (.custom signal.hostText)⟩

end Interrupt

/-- An error of the host interrupts a computation as what it is. -/
def HostError.interrupt : HostError → Interrupt
  | own message => .host (.custom message)
  | wrapping text token message hint => .host (.wrapping text token message hint)
  | raised token message hint => .failure ⟨token, .custom message hint⟩

inductive Outcome (α : Type) where
  | value (result : α) (machine : Machine)
  | interrupted (interrupt : Interrupt) (machine : Machine)
  | outOfFuel

def Run (α : Type) : Type :=
  Machine → Outcome α

namespace Run

@[inline] def succeed {α : Type} (result : α) : Run α :=
  fun machine => .value result machine

@[inline] def andThen {α β : Type} (first : Run α) (next : α → Run β) : Run β :=
  fun machine =>
    match first machine with
    | .value result machine => next result machine
    | .interrupted interrupt machine => .interrupted interrupt machine
    | .outOfFuel => .outOfFuel

@[inline] instance : Monad Run where
  pure := succeed
  bind := andThen

def outOfFuel {α : Type} : Run α :=
  fun _ => .outOfFuel

@[inline] def interrupt {α : Type} (interrupt : Interrupt) : Run α :=
  fun machine => .interrupted interrupt machine

@[inline] def fail {α : Type} (token : Token) (cause : Cause) : Run α :=
  interrupt (.failure ⟨token, cause⟩)

@[inline] def ofExcept {α : Type} : Except RuntimeError α → Run α
  | .ok result => succeed result
  | .error error => interrupt (.failure error)

@[inline] def read {α : Type} (view : Machine → α) : Run α :=
  fun machine => .value (view machine) machine

@[inline] def modify (change : Machine → Machine) : Run Unit :=
  fun machine => .value () (change machine)

/-- Runs `handler` when `body` is interrupted. -/
@[inline] def intercept {α : Type} (body : Run α) (handler : Interrupt → Run α) : Run α :=
  fun machine =>
    match body machine with
    | .interrupted interrupt machine => handler interrupt machine
    | outcome => outcome

/-- Runs `body` with another frame, and goes back to the old one however it ends. -/
@[inline] def within {α : Type} (frame : FrameId) (body : Run α) : Run α :=
  fun machine =>
    let previous := machine.frame
    match body { machine with frame } with
    | .value result machine => .value result { machine with frame := previous }
    | .interrupted interrupt machine => .interrupted interrupt { machine with frame := previous }
    | .outOfFuel => .outOfFuel

/-- Runs `body` as one more call under way. -/
@[inline] def asCall {α : Type} (body : Run α) : Run α :=
  fun machine =>
    match body { machine with depth := machine.depth + 1 } with
    | .value result machine => .value result { machine with depth := machine.depth - 1 }
    | .interrupted interrupt machine =>
      .interrupted interrupt { machine with depth := machine.depth - 1 }
    | .outOfFuel => .outOfFuel

def write (text : Bytes) : Run Unit :=
  fun machine =>
    match machine.output.sink.error? with
    | some error => .interrupted error.interrupt { machine with output := machine.output.refused }
    | none => .value () { machine with output := machine.output.add (.printed text) }

def writeLine (text : Bytes) : Run Unit :=
  write (text ++ Bytes.newline)

/-- One line without its end, or null when nothing is left. -/
def readLine : Run Value :=
  fun machine =>
    match machine.input.readLine with
    | (.broken error, input) => .interrupted error.interrupt { machine with input }
    | (read, input) => .value ((read.line?.map Value.string).getD .null) { machine with input }

def readClock : Run Value :=
  fun machine =>
    .value (.number (machine.clock machine.ticks)) { machine with ticks := machine.ticks + 1 }

def newFrame (parent : FrameId) : Run FrameId :=
  fun machine =>
    let (frame, heap) := machine.heap.alloc (some parent)
    .value frame { machine with heap }

def define (name : Bytes) (value : Value) : Run Unit :=
  modify fun machine => { machine with heap := machine.heap.define machine.frame name value }

def defineAll (frame : FrameId) (bindings : List (Bytes × Value)) : Run Unit :=
  modify fun machine => { machine with heap := machine.heap.defineAll frame bindings }

def lookup (name : Token) : Run Value :=
  fun machine =>
    match machine.heap.get machine.frame name machine.search with
    | .ok value => .value value machine
    | .error error => .interrupted (.failure error) machine

def assign (name : Token) (value : Value) : Run Unit :=
  fun machine =>
    match machine.heap.owner machine.frame name machine.search with
    | .ok owner =>
      .value () { machine with heap := machine.heap.define owner name.lexeme value }
    | .error error => .interrupted (.failure error) machine

def newId : Run Nat :=
  fun machine => .value machine.nextId { machine with nextId := machine.nextId + 1 }

def record (event : TraceEvent) : Run Unit :=
  modify fun machine =>
    if machine.tracing then { machine with trace := machine.trace.push event } else machine

end Run

/-- The functions that a host adds to those of the language, by their numbers. -/
class Natives where
  run : Nat → List Value → Run Value

/-- A host that adds none. -/
instance Natives.none : Natives where
  run _ _ := .interrupt (.host .failure)

end Treewalk
