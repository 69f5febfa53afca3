import Treewalk.Machine
import Treewalk.Machine.Operator

/-! Running programs. Expressions yield values, statements are run for their effects, and both can
be interrupted. Every step spends fuel, so all of this is total; a run that ends does so in the
same way whatever fuel was left over. -/

namespace Treewalk.Machine

/-- The name under which a host function raises an error, and the line that it gives. -/
def raisedToken : Token :=
  .onLine .identifier (.ofString "raised") 77

/-- What leaving the body of a function means for the call: loops do not reach across it. -/
def resultOf : Interrupt → Run Value
  | .returnValue _ value => .succeed value
  | interrupt => .interrupt interrupt.escaped

/-- Turns the end of a loop's body or of what follows it into "go on?". -/
def continues (body : Run Unit) : Run Bool :=
  fun machine =>
    match body machine with
    | .value _ machine => .value true machine
    | .interrupted (.continueLoop _) machine => .value true machine
    | .interrupted (.breakLoop _) machine => .value false machine
    | .interrupted interrupt machine => .interrupted interrupt machine
    | .outOfFuel => .outOfFuel

/-- Runs `body` as a call of `callee`, within the limit on nested calls. -/
def traced (callee : Callable) (arguments : List Value) (paren : Token) (body : Run Value) :
    Run Value := do
  let depth ← Run.read Machine.depth
  let maxDepth ← Run.read Machine.maxDepth
  if depth < maxDepth then
    Run.asCall do
      Run.record (.called callee.text arguments.length paren.pos.line (depth + 1))
      let result ← body.intercept fun interrupt =>
        .interrupt (if callee.isNative then interrupt.atCall paren else interrupt)
      Run.record (.returned callee.text result.text)
      return result
  else
    Run.fail paren .stackOverflow

variable [Natives]

mutual

def evaluate : (fuel : Nat) → Expr → Run Value
  | 0, _ => .outOfFuel
  | fuel + 1, expr =>
    match expr with
    | .literal value _ => .succeed value.toValue
    | .name token => .lookup token
    | .assign target value => do
      let result ← evaluate fuel value
      Run.assign target result
      return result
    | .ternary condition first second => do
      let decision ← evaluate fuel condition
      if decision.isTruthy then evaluate fuel first else evaluate fuel second
    | .logical left operator right => do
      let result ← evaluate fuel left
      if Operator.decides operator result then return result else evaluate fuel right
    | .binary left operator right => do
      let first ← evaluate fuel left
      let second ← evaluate fuel right
      Run.ofExcept (Operator.binary operator first second)
    | .unary operator operand => do
      let result ← evaluate fuel operand
      Run.ofExcept (Operator.unary operator result)
    | .group inner => evaluate fuel inner
    | .call callee paren arguments => do
      let called ← evaluate fuel callee
      let values ← evaluateAll fuel arguments
      match called.callable? with
      | none => Run.fail paren .notCallable
      | some callable =>
        if callable.arity = values.length then
          traced callable values paren (invoke fuel callable values)
        else
          Run.fail paren (.wrongArity callable.arity values.length)
    | .hole => .interrupt (.host .missingExpression)

def evaluateAll : (fuel : Nat) → List Expr → Run (List Value)
  | 0, _ => .outOfFuel
  | _ + 1, [] => .succeed []
  | fuel + 1, expr :: rest => do
    let first ← evaluate fuel expr
    let others ← evaluateAll fuel rest
    return first :: others

/-- Runs the body of a callable. A function runs in a new frame inside the one in which it was
declared. -/
def invoke : (fuel : Nat) → Callable → List Value → Run Value
  | 0, _, _ => .outOfFuel
  | fuel + 1, .function closure, arguments =>
    if closure.parameters.length = arguments.length then do
      let frame ← Run.newFrame closure.frame
      Run.defineAll frame (closure.parameters.zip arguments)
      Run.intercept
        (do
          Run.within frame (executeAll fuel closure.body)
          return .null)
        resultOf
    else .interrupt (.host .missingArgument)
  | fuel + 1, .native builtin, arguments =>
    match builtin.primitive, arguments with
    | .clock, _ => .readClock
    | .print, [value] => do
      Run.writeLine value.text
      return .null
    | .input, [prompt] => do
      Run.write prompt.text
      Run.readLine
    | .fail, _ => .interrupt (.host .failure)
    | .raise, [value] => Run.fail raisedToken (.custom value.text [])
    | .apply, [value, argument] =>
      match value.callable? with
      | some callable =>
        if callable.arity = 1 then invoke fuel callable [argument] else .succeed .null
      | none => .succeed .null
    | .inert, _ => .succeed .null
    | .foreign index, arguments => Natives.run index arguments
    | _, _ => .interrupt (.host .missingArgument)

def execute : (fuel : Nat) → Stmt → Run Unit
  | 0, _ => .outOfFuel
  | fuel + 1, stmt =>
    match stmt with
    | .expression value => do
      let _ ← evaluate fuel value
      return ()
    | .print value => do
      let result ← evaluate fuel value
      Run.writeLine result.text
    | .declare name none => Run.define name.lexeme .uninitialized
    | .declare name (some initial) => do
      let value ← evaluate fuel initial
      Run.define name.lexeme value
    | .block body _ => do
      let outer ← Run.read Machine.frame
      let frame ← Run.newFrame outer
      Run.within frame (executeAll fuel body)
    | .branch condition consequence alternative _ => do
      let decision ← evaluate fuel condition
      if decision.isTruthy then execute fuel consequence
      else
        match alternative with
        | some alternative => execute fuel alternative
        | none => return ()
    | .loop condition body post _ => repeatWhile fuel condition body post
    | .breakLoop keyword => .interrupt (.breakLoop keyword)
    | .continueLoop keyword => .interrupt (.continueLoop keyword)
    | .function name parameters body => do
      let id ← Run.newId
      let frame ← Run.read Machine.frame
      let closure :=
        { id, name := name.lexeme, parameters := parameters.map (·.lexeme), body, frame }
      Run.define name.lexeme (.callable (.function closure))
    | .returnValue keyword none => .interrupt (.returnValue keyword .null)
    | .returnValue keyword (some result) => do
      let value ← evaluate fuel result
      Run.interrupt (.returnValue keyword value)
    | .hole => .interrupt (.host .missingStatement)

def executeAll : (fuel : Nat) → List Stmt → Run Unit
  | 0, _ => .outOfFuel
  | _ + 1, [] => .succeed ()
  | fuel + 1, stmt :: rest => do
    execute fuel stmt
    executeAll fuel rest

/-- Runs the body while the condition holds, and `post` after each turn. -/
def repeatWhile : (fuel : Nat) → (condition : Expr) → (body : Stmt) → (post : Option Stmt) →
    Run Unit
  | 0, _, _, _ => .outOfFuel
  | fuel + 1, condition, body, post => do
    let decision ← evaluate fuel condition
    if decision.isTruthy then
      let goesOn ← continues (execute fuel body)
      if goesOn then
        let goesOn ← match post with
          | some post => continues (execute fuel post)
          | none => .succeed true
        if goesOn then repeatWhile fuel condition body post else return ()
      else return ()
    else return ()

end

/-- Runs the statements of a program. An interrupt that nothing caught ends the program and puts the
machine back to where programs start. -/
def interpret (fuel : Nat) (statements : List Stmt) : Run Unit :=
  fun machine =>
    match executeAll fuel statements machine with
    | .interrupted interrupt machine =>
      .interrupted interrupt.escaped { machine with frame := machine.globals, depth := 0 }
    | outcome => outcome

/-- Runs statements in a frame, which stops being the current one however they end. -/
def executeIn (fuel : Nat) (frame : FrameId) (statements : List Stmt) : Run Unit :=
  Run.within frame (executeAll fuel statements)

end Treewalk.Machine
