import Treewalk.Proofs.FrameTrees
import Treewalk.Proofs.RunUpkeep

/-! Frames are rooted in the global one. Every other frame is made inside a frame that was there before it, and a
function keeps a frame that is there, wherever the function itself is kept: in a frame, among the arguments of a call or
in what is yielded. So every way outwards comes to the global frame, and a search for a name ends. -/

namespace Treewalk

def Value.frame? : Value → Option FrameId
  | .callable (.function closure) => some closure.frame
  | _ => none

/-- A function keeps one of the first so many frames. Frames are numbered in the order in which they are made. -/
def Value.Within (count : Nat) (value : Value) : Prop :=
  ∀ frame, value.frame? = some frame → frame < count

namespace Value.Within

variable {count more : Nat} {value : Value}

theorem weaken (within : value.Within count) (grown : count ≤ more) : value.Within more :=
  fun frame kept => Nat.lt_of_lt_of_le (within frame kept) grown

theorem constant (constant : value.IsConstant) : value.Within count := by
  intro frame kept
  cases constant <;> cases kept

end Value.Within

namespace Heap

/-- Goes from parent to parent until there is none, and lists the frames on the way; nothing when so many steps do not
get there. -/
def climb (heap : Heap) : (steps : Nat) → FrameId → Option (List FrameId)
  | 0, _ => none
  | steps + 1, frame =>
    match heap.parent? frame with
    | none => some [frame]
    | some parent => (heap.climb steps parent).map (frame :: ·)

/-- Every frame but the root has a parent, and all functions that are bound keep frames that are there. -/
structure Rooted (root : FrameId) (heap : Heap) : Prop where
  linked : heap.Linked
  there : root < heap.frames.size
  top : heap.parent? root = none
  parented : ∀ frame < heap.frames.size, frame ≠ root → heap.parent? frame ≠ none
  bound : heap.Holds (Value.Within heap.frames.size)

section

variable {heap : Heap} {root frame : FrameId}

theorem size_define (owner : FrameId) (name : Bytes) (value : Value) :
    (heap.define owner name value).frames.size = heap.frames.size :=
  Array.size_modify

theorem size_alloc (parent : Option FrameId) : (heap.alloc parent).2.frames.size = heap.frames.size + 1 :=
  Array.size_push _

theorem size_defineAll (bindings : List (Bytes × Value)) :
    (heap.defineAll frame bindings).frames.size = heap.frames.size := by
  induction bindings generalizing heap with
  | nil => rfl
  | cons binding rest ih => exact ih.trans (size_define frame binding.1 binding.2)

/-- A new frame has the parent that it was made with. -/
theorem parent?_alloc {parent : FrameId} (there : parent < heap.frames.size) :
    (heap.alloc (some parent)).2.parent? frame = if frame = heap.frames.size then some parent else heap.parent? frame := by
  unfold parent?
  rw [frames_alloc]
  split
  · have around := chain_known (Array.getElem?_eq_getElem there)
    rw [Option.map_some, around]
    rfl
  · rfl

end

namespace Rooted

variable {heap : Heap} {root : FrameId} (rooted : heap.Rooted root) {frame : FrameId}
include rooted

theorem define (owner : FrameId) (name : Bytes) {value : Value} (within : value.Within heap.frames.size) :
    (heap.define owner name value).Rooted root where
  linked := rooted.linked.define owner name value
  there := by rw [size_define]; exact rooted.there
  top := by rw [parent?_define]; exact rooted.top
  parented frame inside := by
    rw [size_define] at inside
    rw [parent?_define]
    exact rooted.parented frame inside
  bound := by rw [size_define]; exact rooted.bound.define name within

theorem defineAll {bindings : List (Bytes × Value)} (within : ∀ binding ∈ bindings, binding.2.Within heap.frames.size) :
    (heap.defineAll frame bindings).Rooted root := by
  induction bindings generalizing heap with
  | nil => exact rooted
  | cons binding rest ih =>
    obtain ⟨here, later⟩ := List.forall_mem_cons.mp within
    refine ih (rooted.define frame binding.1 here) ?_
    rw [size_define]
    exact later

theorem alloc {parent : FrameId} (there : parent < heap.frames.size) : (heap.alloc (some parent)).2.Rooted root where
  linked := rooted.linked.alloc (some parent)
  there := by rw [size_alloc]; exact Nat.lt_succ_of_lt rooted.there
  top := by
    rw [parent?_alloc there, if_neg (Nat.ne_of_lt rooted.there)]
    exact rooted.top
  parented frame inside other := by
    rw [size_alloc] at inside
    rw [parent?_alloc there]
    split
    · exact Option.some_ne_none parent
    next old => exact rooted.parented frame (Nat.lt_of_le_of_ne (Nat.le_of_lt_succ inside) old) other
  bound := by
    have grown := rooted.bound.alloc (some parent)
    intro other found known binding bound
    rw [size_alloc]
    exact (grown other found known binding bound).weaken (Nat.le_succ _)

/-- The way outwards from a frame ends in the root, and it is the way that a search takes. -/
theorem climbs (inside : frame < heap.frames.size) :
    ∃ inner, heap.chain frame = inner ++ [root] ∧ ∀ steps, frame < steps → heap.climb steps frame = some (inner ++ [root]) := by
  induction frame using Nat.strongRecOn with
  | ind frame ih =>
    have chain := rooted.linked.chain_eq (Array.getElem?_eq_getElem inside)
    by_cases same : frame = root
    · subst same
      rw [rooted.top] at chain
      refine ⟨[], chain, fun steps enough => ?_⟩
      obtain ⟨fewer, rfl⟩ := Nat.exists_eq_add_one_of_ne_zero (Nat.ne_of_gt (Nat.zero_lt_of_lt enough))
      rw [climb, rooted.top]
      rfl
    · obtain ⟨parent, within⟩ := Option.ne_none_iff_exists'.mp (rooted.parented frame inside same)
      have older := rooted.linked.parent_lt within
      obtain ⟨inner, around, goes⟩ := ih parent older (Nat.lt_trans older inside)
      rw [within, Option.map_some, Option.getD_some, around] at chain
      refine ⟨frame :: inner, chain, fun steps enough => ?_⟩
      obtain ⟨fewer, rfl⟩ := Nat.exists_eq_add_one_of_ne_zero (Nat.ne_of_gt (Nat.zero_lt_of_lt enough))
      rw [climb, within]
      dsimp only
      rw [goes fewer (Nat.lt_of_lt_of_le older (Nat.le_of_lt_succ enough))]
      rfl

end Rooted

/-- What is bound in none of the first frames is found behind them. -/
theorem findIn?_behind {heap : Heap} {name : Bytes} {inner outer : List FrameId}
    (unbound : ∀ frame ∈ inner, heap.local? frame name = none) :
    heap.findIn? name (inner ++ outer) = heap.findIn? name outer := by
  induction inner with
  | nil => rfl
  | cons frame rest ih =>
    obtain ⟨here, later⟩ := List.forall_mem_cons.mp unbound
    rw [List.cons_append, findIn?, here]
    exact ih later

end Heap

namespace Machine

/-- The frames of a machine that has these values at hand. -/
structure Grounded (held : List Value) (machine : Machine) : Prop where
  globals : machine.globals < machine.heap.frames.size ∧ machine.heap.parent? machine.globals = none
  /-- A parent is there, and was there before. -/
  parents : ∀ frame < machine.heap.frames.size, frame ≠ machine.globals →
    ∃ parent, machine.heap.parent? frame = some parent ∧ parent < frame
  current : machine.frame < machine.heap.frames.size
  bound : machine.heap.Holds (Value.Within machine.heap.frames.size)
  atHand : ∀ value ∈ held, value.Within machine.heap.frames.size
  /-- From every frame that is there, the current one and those that functions keep among them, the way from parent to
  parent ends in the global frame. Searches take this way, and find a global that nothing hides on it. -/
  outwards : ∀ frame < machine.heap.frames.size, ∃ inner,
    (∀ steps, frame < steps → machine.heap.climb steps frame = some (inner ++ [machine.globals])) ∧
    machine.heap.chain frame = inner ++ [machine.globals] ∧
    ∀ name value, machine.heap.local? machine.globals name = some value →
      (∀ hider ∈ inner, machine.heap.local? hider name = none) →
      machine.heap.find? frame name = some (machine.globals, value)

def rooting : Upkeep where
  machine machine := machine.heap.Rooted machine.globals ∧ machine.frame < machine.heap.frames.size
  value machine := Value.Within machine.heap.frames.size
  leads before after := before.heap.frames.size ≤ after.heap.frames.size

private theorem rooting_define {machine : Machine} (holds : rooting.machine machine) (owner : FrameId) (name : Bytes)
    {value : Value} (within : rooting.value machine value) :
    rooting.Goes machine { machine with heap := machine.heap.define owner name value } := by
  have size := machine.heap.size_define owner name value
  exact ⟨⟨holds.1.define owner name within, size.symm ▸ holds.2⟩, Nat.le_of_eq size.symm⟩

private theorem rooting_opened {machine : Machine} {parent : FrameId} {bindings : List (Bytes × Value)}
    (holds : rooting.machine machine) (there : parent < machine.heap.frames.size)
    (within : ∀ binding ∈ bindings, rooting.value machine binding.2) : rooting.Goes machine (machine.opened parent bindings) := by
  have grown : machine.heap.frames.size ≤ (machine.heap.alloc (some parent)).2.frames.size := by
    rw [Heap.size_alloc]
    exact Nat.le_succ _
  have size : (machine.opened parent bindings).heap.frames.size = machine.heap.frames.size + 1 :=
    (Heap.size_defineAll bindings).trans (Heap.size_alloc (some parent))
  refine ⟨⟨(holds.1.alloc there).defineAll fun binding bound => (within binding bound).weaken grown, ?_⟩, ?_⟩
  · rw [size]
    exact Nat.lt_succ_self _
  · change machine.heap.frames.size ≤ (machine.opened parent bindings).heap.frames.size
    rw [size]
    exact Nat.le_succ _

private theorem rooting_lawful : rooting.Lawful where
  refl _ := Nat.le_refl _
  trans := Nat.le_trans
  stable grown within := within.weaken grown
  constant := Value.Within.constant
  closure _ _ _ _ holds := by
    rintro _ ⟨⟩
    exact holds.2
  found holds finds := by
    obtain ⟨_, owner, _, found, known, bound⟩ := Heap.get_bound finds
    exact holds.1.bound owner found known _ bound
  outside _ _ _ _ _ _ holds := ⟨holds, Nat.le_refl _⟩
  assign holds _ within := rooting_define holds _ _ within
  define name holds allowed := by
    refine rooting_define holds _ name ?_
    rcases allowed with within | rfl
    · exact within
    · rintro _ ⟨⟩
  opened holds inside within := by
    refine rooting_opened holds ?_ within
    rcases inside with rfl | ⟨closure, kept, rfl⟩
    · exact holds.2
    · exact kept _ rfl
  back holds goes := ⟨⟨goes.1.1, Nat.lt_of_lt_of_le holds.2 goes.2⟩, Nat.le_refl _⟩

theorem grounded_of_rooted {held : List Value} {machine : Machine} (holds : rooting.machine machine)
    (meets : rooting.Meets machine held) : machine.Grounded held where
  globals := ⟨holds.1.there, holds.1.top⟩
  parents frame inside other := by
    obtain ⟨parent, within⟩ := Option.ne_none_iff_exists'.mp (holds.1.parented frame inside other)
    exact ⟨parent, within, holds.1.linked.parent_lt within⟩
  current := holds.2
  bound := holds.1.bound
  atHand := meets
  outwards frame inside := by
    obtain ⟨inner, around, climbs⟩ := holds.1.climbs inside
    refine ⟨inner, climbs, around, fun name value bound unbound => ?_⟩
    unfold Heap.find?
    rw [around, Heap.findIn?_behind unbound, Heap.findIn?, bound]

private theorem install_rooted {machine : Machine} (holds : rooting.machine machine) (entry : String × Int × Primitive) :
    rooting.machine (machine.install entry) := by
  refine (rooting_define holds machine.globals _ ?_).1
  rintro _ ⟨⟩

private theorem bare_rooted (options : Options) : rooting.machine (bare options) := by
  refine ⟨⟨Heap.Linked.empty.alloc none, Nat.zero_lt_one, rfl, ?_, bare_holds options _⟩, Nat.zero_lt_one⟩
  intro frame inside other
  exact absurd (Nat.lt_one_iff.mp inside) other

private theorem start_rooted (options : Options) : rooting.machine (start options) := by
  have installed : ∀ (entries : List (String × Int × Primitive)) (machine : Machine), rooting.machine machine →
      rooting.machine (entries.foldl install machine) := by
    intro entries
    induction entries with
    | nil => exact fun _ holds => holds
    | cons entry rest ih => exact fun machine holds => ih (machine.install entry) (install_rooted holds entry)
  have plain := installed builtins (bare options) (bare_rooted options)
  unfold start
  dsimp only
  split
  · refine (rooting_define (installed hostFunctions _ plain) _ _ ?_).1
    rintro _ ⟨⟩
  · exact plain

/-- The machines that come about when lists of statements are executed one after the other, however they end. -/
inductive Executed (options : Options) : Machine → Prop where
  | start : Executed options (start options)
  | execute {machine after : Machine} {fuel : Nat} {stmts : List Stmt} (before : Executed options machine)
      (ends : (executeAll fuel stmts machine).after? = some after) : Executed options after
  | interpret {machine after : Machine} {fuel : Nat} {stmts : List Stmt} (before : Executed options machine)
      (ends : (Machine.interpret fuel stmts machine).after? = some after) : Executed options after

private theorem executeAll_rooted {machine after : Machine} {fuel : Nat} {stmts : List Stmt} (holds : rooting.machine machine)
    (ends : (executeAll fuel stmts machine).after? = some after) : rooting.machine after := by
  have kept : rooting.Outcomes _ machine ((Task.executeAll stmts).run fuel machine) :=
    rooting_lawful.runs fuel holds .nothing
  exact (kept.goes ends).1

private theorem interpret_rooted {machine after : Machine} {fuel : Nat} {stmts : List Stmt} (holds : rooting.machine machine)
    (ends : (interpret fuel stmts machine).after? = some after) : rooting.machine after := by
  have inside : ∀ last, (executeAll fuel stmts machine).after? = some last → rooting.machine last :=
    fun _ ended => executeAll_rooted holds ended
  rw [interpret_fold] at ends
  generalize executeAll fuel stmts machine = outcome at ends inside
  cases outcome with
  | value _ last =>
    cases ends
    exact inside _ rfl
  | interrupted cause last =>
    cases ends
    have rooted := (inside last rfl).1
    exact ⟨rooted, rooted.there⟩
  | outOfFuel => cases ends

private theorem Executed.rooted {options : Options} {machine : Machine} (executed : Executed options machine) :
    rooting.machine machine := by
  induction executed with
  | start => exact start_rooted options
  | execute _ ends ih => exact executeAll_rooted ih ends
  | interpret _ ends ih => exact interpret_rooted ih ends

/-- The frames of a machine are rooted in the global one between executions, at every point of an execution and at the
end of every task in it, whatever the execution comes to. -/
theorem frames_stay_rooted {options : Options} {machine : Machine} (executed : Executed options machine) (stmts : List Stmt) :
    machine.Grounded [] ∧
    (∀ reached there, Reaches (.executeAll stmts) machine reached there ↔
      ∃ held, ReachesWith held (.executeAll stmts) machine reached there) ∧
    ∀ held reached there, ReachesWith held (.executeAll stmts) machine reached there → there.Grounded held ∧
      ∀ ending after, reached.Ends there ending after → after.Grounded (held ++ reached.yielded ending) := by
  have holds := executed.rooted
  refine ⟨grounded_of_rooted holds .nothing, fun reached there => reaches_iff_with, ?_⟩
  intro held reached there reaches
  obtain ⟨goes, meets, passed⟩ := rooting_lawful.reached holds .nothing reaches
  refine ⟨grounded_of_rooted goes.1 meets, fun ending after ends => ?_⟩
  obtain ⟨further, yielded⟩ := rooting_lawful.ends goes.1 passed ends
  exact grounded_of_rooted further.1 (List.forall_mem_append.mpr ⟨rooting_lawful.still meets further, yielded⟩)

/-- A function out of a block of another function, kept when the program failed, and then called. -/
theorem keptFunction_stays_rooted :
    let source := "fn make() \x7b \x7b fn inner() \x7b return make; \x7d return inner; \x7d \x7d var g = make(); missing;"
    ∃ (error : RuntimeError) (machine : Machine) (kept : Value),
      interpret 60 (Program.ofSource (.ofString source)).statements (start {}) = .interrupted (.failure error) machine ∧
      Executed {} machine ∧ machine.heap.local? machine.globals (utf8 'g') = some kept ∧
      kept.frame?.bind (machine.heap.climb 3) = some [2, 1, 0] ∧ machine.Grounded [] ∧
      ∀ held reached there,
        ReachesWith held (.executeAll (Program.ofSource (.ofString "g()();")).statements) machine reached there →
        there.Grounded held := by
  intro source
  have fails : (interpret 60 (Program.ofSource (.ofString source)).statements (start {})).error?.isSome = true := by
    decide +kernel
  have keeps : (interpret 60 (Program.ofSource (.ofString source)).statements (start {})).after?.bind (fun machine =>
      (machine.heap.local? machine.globals (utf8 'g')).bind fun kept =>
        kept.frame?.bind (machine.heap.climb 3)) = some [2, 1, 0] := by
    decide +kernel
  obtain ⟨error, fails⟩ := Option.isSome_iff_exists.mp fails
  obtain ⟨machine, stops⟩ := Outcome.of_error? fails
  have executed : Executed {} machine := .interpret .start (by rw [stops]; rfl)
  obtain ⟨grounded, _, points⟩ := frames_stay_rooted executed (Program.ofSource (.ofString "g()();")).statements
  rw [stops] at keeps
  obtain ⟨_, ⟨⟩, keeps⟩ := Option.bind_eq_some_iff.mp keeps
  obtain ⟨kept, bound, climbs⟩ := Option.bind_eq_some_iff.mp keeps
  exact ⟨error, machine, kept, stops, executed, bound, climbs, grounded,
    fun held reached there reaches => (points held reached there reaches).1⟩

end Machine
end Treewalk
