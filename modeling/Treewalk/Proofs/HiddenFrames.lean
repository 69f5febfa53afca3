import Treewalk.Proofs.HeldValues

/-! Frames out of reach. A run can come only to frames that are around the current one, or that a
function keeps which is bound in a frame it can come to. It reads and writes no other frame that was
there when it started, so these may hold anything: the run goes the same way, and leaves them as they
are. -/

namespace Treewalk
namespace Heap

/-- The frames that can be come to from a frame. -/
inductive Reachable (heap : Heap) (start : FrameId) : FrameId → Prop where
  | start : Reachable heap start start
  | outer {frame outer : FrameId} {found : Frame} (reachable : Reachable heap start frame)
      (known : heap.frames[frame]? = some found) (around : outer ∈ found.outer) : Reachable heap start outer
  | closure {frame : FrameId} {found : Frame} {name : Bytes} {closure : Closure} (reachable : Reachable heap start frame)
      (known : heap.frames[frame]? = some found) (bound : (name, .callable (.function closure)) ∈ found.bindings) :
      Reachable heap start closure.frame

section

variable {heap other : Heap} {frame : FrameId}

private theorem findIn?_congr {name : Bytes} {frames : List FrameId}
    (same : ∀ frame ∈ frames, other.frames[frame]? = heap.frames[frame]?) :
    other.findIn? name frames = heap.findIn? name frames := by
  induction frames with
  | nil => rfl
  | cons frame rest ih =>
    obtain ⟨here, later⟩ := List.forall_mem_cons.mp same
    have bound : other.local? frame name = heap.local? frame name := by
      unfold local?
      rw [here]
    rw [findIn?, findIn?, bound, ih later]

private theorem namesIn_congr {seen : List Bytes} {frames : List FrameId}
    (same : ∀ frame ∈ frames, other.frames[frame]? = heap.frames[frame]?) :
    other.namesIn seen frames = heap.namesIn seen frames := by
  induction frames generalizing seen with
  | nil => rfl
  | cons frame rest ih =>
    obtain ⟨here, later⟩ := List.forall_mem_cons.mp same
    have names : other.localNames frame = heap.localNames frame := by
      unfold localNames
      rw [here]
    rw [namesIn, namesIn, names, ih later]

private theorem chain_congr (here : other.frames[frame]? = heap.frames[frame]?) : other.chain frame = heap.chain frame := by
  unfold chain
  rw [here]

section

variable (here : other.frames[frame]? = heap.frames[frame]?)
  (around : ∀ outer ∈ heap.chain frame, other.frames[outer]? = heap.frames[outer]?) (name : Token) (search : FuzzySearch)
include here around

private theorem find?_congr : other.find? frame name.lexeme = heap.find? frame name.lexeme := by
  rw [find?, find?, chain_congr here, findIn?_congr around]

private theorem undefinedError_congr : other.undefinedError frame name search = heap.undefinedError frame name search := by
  rw [undefinedError, undefinedError, names, names, chain_congr here, namesIn_congr around]

private theorem get_congr : other.get frame name search = heap.get frame name search := by
  rw [get, get, find?_congr here around, undefinedError_congr here around]

private theorem owner_congr : other.owner frame name search = heap.owner frame name search := by
  rw [owner, owner, find?_congr here around, undefinedError_congr here around]

end
end
end Heap

def Value.Avoids (hidden : FrameId → Prop) (value : Value) : Prop :=
  ∀ closure, value = .callable (.function closure) → ¬hidden closure.frame

def Interrupt.Avoids (hidden : FrameId → Prop) (cause : Interrupt) : Prop :=
  ∀ keyword value, cause = .returnValue keyword value → value.Avoids hidden

namespace Machine

/-- A frame of the machine that no run comes to. -/
def Hides (machine : Machine) (frame : FrameId) : Prop :=
  frame < machine.heap.frames.size ∧ ¬machine.heap.Reachable machine.frame frame

/-- Two machines with the same frames, of which those that can be come to hold the same. -/
structure AlikeInReach (first second : Machine) : Prop where
  same : second = { first with heap := second.heap }
  outers : second.heap.frames.map Frame.outer = first.heap.frames.map Frame.outer
  reach : ∀ frame, first.heap.Reachable first.frame frame → second.heap.frames[frame]? = first.heap.frames[frame]?

/-- Two runs from these machines end in the same way. The frames that were hidden are as they were in
each of the runs, and all others are the same in both. -/
inductive Undisturbed {α : Type} (first second : Machine) : Outcome α → Outcome α → Prop where
  | ended (ending : Except Interrupt α) {after other : Machine} (same : other = { after with heap := other.heap })
      (others : ∀ frame, ¬first.Hides frame → other.heap.frames[frame]? = after.heap.frames[frame]?)
      (kept : ∀ frame, first.Hides frame → after.heap.frames[frame]? = first.heap.frames[frame]? ∧
        other.heap.frames[frame]? = second.heap.frames[frame]?) :
      Undisturbed first second (.ended ending after) (.ended ending other)
  | outOfFuel : Undisturbed first second .outOfFuel .outOfFuel

/-- The heaps in the middle of such runs: what is not hidden is the same in both, and does not lead to
what is hidden. -/
structure Screened (first second : Machine) (heap other : Heap) : Prop where
  grown : first.heap.frames.size ≤ heap.frames.size
  sized : other.frames.size = heap.frames.size
  others : ∀ frame, ¬first.Hides frame → other.frames[frame]? = heap.frames[frame]?
  kept : ∀ frame, first.Hides frame → heap.frames[frame]? = first.heap.frames[frame]? ∧
    other.frames[frame]? = second.heap.frames[frame]?
  outer : ∀ frame found, ¬first.Hides frame → heap.frames[frame]? = some found →
    ∀ outer ∈ found.outer, ¬first.Hides outer
  bound : ∀ frame found, ¬first.Hides frame → heap.frames[frame]? = some found →
    ∀ binding ∈ found.bindings, binding.2.Avoids first.Hides

namespace Screened

variable {first second : Machine} {heap other : Heap} (screened : Screened first second heap other) {frame : FrameId}
  (seen : ¬first.Hides frame)
include screened seen

private theorem chain : ∀ outer ∈ heap.chain frame, ¬first.Hides outer := by
  intro outer around
  unfold Heap.chain at around
  split at around
  next found known =>
    rcases List.mem_cons.mp around with rfl | further
    · exact seen
    · exact screened.outer frame found seen known outer further
  next => cases around

private theorem around : ∀ outer ∈ heap.chain frame, other.frames[outer]? = heap.frames[outer]? :=
  fun outer inside => screened.others outer (screened.chain seen outer inside)

private theorem found {name : Token} {value : Value} {search : FuzzySearch} (finds : heap.get frame name search = .ok value) :
    value.Avoids first.Hides := by
  obtain ⟨_, owner, around, found, known, bound⟩ := Heap.get_bound finds
  exact screened.bound owner found (screened.chain seen owner around) known _ bound

private theorem define (name : Bytes) {value : Value} (avoids : value.Avoids first.Hides) :
    Screened first second (heap.define frame name value) (other.define frame name value) := by
  constructor
  case grown => exact Nat.le_trans screened.grown (Nat.le_of_eq Array.size_modify.symm)
  case sized => exact Array.size_modify.trans (screened.sized.trans Array.size_modify.symm)
  case others =>
    intro place unhidden
    rw [Heap.frames_define, Heap.frames_define, screened.others place unhidden]
  case kept =>
    intro place hidden
    have apart : frame ≠ place := fun same => seen (same ▸ hidden)
    rw [Heap.frames_define, Heap.frames_define, if_neg apart, if_neg apart]
    exact screened.kept place hidden
  case outer =>
    intro place found unhidden known
    rw [Heap.frames_define] at known
    split at known
    · obtain ⟨old, before, rfl⟩ := Option.map_eq_some_iff.mp known
      exact screened.outer place old unhidden before
    · exact screened.outer place found unhidden known
  case bound =>
    intro place found unhidden known binding bound
    rw [Heap.frames_define] at known
    split at known
    · obtain ⟨old, before, rfl⟩ := Option.map_eq_some_iff.mp known
      rcases mem_bindName bound with rfl | kept
      · exact avoids
      · exact screened.bound place old unhidden before binding kept
    · exact screened.bound place found unhidden known binding bound

private theorem defineAll {bindings : List (Bytes × Value)}
    (avoid : ∀ binding ∈ bindings, binding.2.Avoids first.Hides) :
    Screened first second (heap.defineAll frame bindings) (other.defineAll frame bindings) := by
  induction bindings generalizing heap other with
  | nil => exact screened
  | cons binding rest ih =>
    obtain ⟨here, later⟩ := List.forall_mem_cons.mp avoid
    exact ih (screened.define seen binding.1 here) later

/-- A new frame inside one that is not hidden. -/
private theorem alloc : Screened first second (heap.alloc (some frame)).2 (other.alloc (some frame)).2 := by
  have chains : other.chain frame = heap.chain frame := Heap.chain_congr (screened.others frame seen)
  constructor
  case grown =>
    refine Nat.le_trans screened.grown ?_
    change heap.frames.size ≤ (heap.frames.push _).size
    rw [Array.size_push]
    exact Nat.le_succ _
  case sized =>
    change (other.frames.push _).size = (heap.frames.push _).size
    rw [Array.size_push, Array.size_push, screened.sized]
  case others =>
    intro place unhidden
    simp only [Heap.frames_alloc, Option.map_some, chains, screened.sized, screened.others place unhidden]
  case kept =>
    intro place hidden
    have old : place ≠ heap.frames.size := Nat.ne_of_lt (Nat.lt_of_lt_of_le hidden.1 screened.grown)
    rw [Heap.frames_alloc, Heap.frames_alloc, screened.sized, if_neg old, if_neg old]
    exact screened.kept place hidden
  case outer =>
    intro place found unhidden known
    rw [Heap.frames_alloc] at known
    split at known
    · cases known
      exact screened.chain seen
    · exact screened.outer place found unhidden known
  case bound =>
    intro place found unhidden known binding bound
    rw [Heap.frames_alloc] at known
    split at known
    · cases known
      cases bound
    · exact screened.bound place found unhidden known binding bound

end Screened

def screening (first second : Machine) : Kinship where
  machine a b := b = { a with heap := b.heap } ∧ ¬first.Hides a.frame ∧ Screened first second a.heap b.heap
  handed _ := True
  value := Value.Avoids first.Hides
  expr _ := True
  stmt _ _ := True
  fault := Interrupt.Avoids first.Hides
  raised := Interrupt.Avoids first.Hides
  leaves _ := Interrupt.Avoids first.Hides
  cut := False

section

variable {first second : Machine}

private theorem constant_avoids {hidden : FrameId → Prop} {value : Value} (constant : value.IsConstant) : value.Avoids hidden := by
  rintro closure rfl
  cases constant

private theorem screening_trees : (screening first second).KeepsTrees where
  parts _ _ _ := trivial
  exprs _ _ _ := trivial
  stmts _ _ _ := trivial
  constant := constant_avoids
  closure _ akin _ := by
    rintro _ ⟨⟩
    exact akin.2.1
  body _ _ _ := trivial

private theorem screening_machines : (screening first second).KeepsMachines := by
  have form : ∀ {a b}, (screening first second).machine a b → ∃ heap, b = { a with heap } := fun akin => ⟨_, akin.1⟩
  constructor
  all_goals intro a b
  case same =>
    intro akin
    obtain ⟨heap, rfl⟩ := form akin
    rfl
  case handsOver =>
    intro error akin hands
    trivial
  case outside =>
    intro input output trace nextId ticks akin _
    obtain ⟨heap, rfl⟩ := form akin
    exact ⟨rfl, akin.2⟩
  case room =>
    intro akin room
    obtain ⟨heap, rfl⟩ := form akin
    exact room
  case full =>
    intro akin full room
    obtain ⟨heap, rfl⟩ := form akin
    exact full room
  case enter =>
    intro akin _
    obtain ⟨heap, rfl⟩ := form akin
    exact ⟨rfl, akin.2⟩
  case leave =>
    intro akin
    obtain ⟨heap, rfl⟩ := form akin
    exact ⟨rfl, akin.2⟩
  case lookup =>
    intro name akin
    obtain ⟨heap, rfl⟩ := form akin
    obtain ⟨_, seen, screened⟩ := akin
    exact Heap.get_congr (screened.others a.frame seen) (screened.around seen) name a.search
  case owner =>
    intro name akin
    obtain ⟨heap, rfl⟩ := form akin
    obtain ⟨_, seen, screened⟩ := akin
    exact Heap.owner_congr (screened.others a.frame seen) (screened.around seen) name a.search
  case found =>
    intro name value akin finds
    exact akin.2.2.found akin.2.1 finds
  case assign =>
    intro name owner value akin finds avoids
    obtain ⟨heap, rfl⟩ := form akin
    obtain ⟨_, seen, screened⟩ := akin
    exact ⟨rfl, seen, screened.define (screened.chain seen owner (Heap.owner_mem finds)) name.lexeme avoids⟩
  case define =>
    intro value name akin allowed
    obtain ⟨heap, rfl⟩ := form akin
    obtain ⟨_, seen, screened⟩ := akin
    refine ⟨rfl, seen, screened.define seen name ?_⟩
    rcases allowed with avoids | rfl
    · exact avoids
    · rintro _ ⟨⟩
  case opened =>
    intro parent bindings akin inside avoid
    obtain ⟨heap, rfl⟩ := form akin
    obtain ⟨_, seen, screened⟩ := akin
    have parentSeen : ¬first.Hides parent := by
      rcases inside with rfl | ⟨closure, avoids, rfl⟩
      · exact seen
      · exact avoids closure rfl
    have new : ¬first.Hides a.heap.frames.size := fun hidden => Nat.not_lt_of_le screened.grown hidden.1
    have sized : heap.frames.size = a.heap.frames.size := screened.sized
    refine ⟨?_, new, ?_⟩
    · simp only [opened, Heap.alloc, sized]
    · change Screened first second _ ((heap.alloc (some parent)).2.defineAll heap.frames.size bindings)
      rw [sized]
      exact (screened.alloc parentSeen).defineAll new avoid
  case back =>
    intro c d started akin
    obtain ⟨heap, rfl⟩ := form akin
    obtain ⟨other, rfl⟩ := form started
    exact ⟨rfl, started.2.1, akin.2.2⟩

private theorem failure_avoids {hidden : FrameId → Prop} (error : RuntimeError) :
    (Interrupt.failure error).Avoids hidden := by
  rintro _ _ ⟨⟩

private theorem host_avoids {hidden : FrameId → Prop} (fault : HostFault) : (Interrupt.host fault).Avoids hidden := by
  rintro _ _ ⟨⟩

private theorem atCall_avoids {hidden : FrameId → Prop} {cause : Interrupt} (avoids : cause.Avoids hidden) (paren : Token) :
    (cause.atCall paren).Avoids hidden := by
  rcases atCall_cases cause paren with ⟨_, passed⟩ | ⟨fault, _, shown⟩
  · rw [passed]
    exact avoids
  · rw [shown]
    exact failure_avoids _

private theorem handed_avoids {hidden : FrameId → Prop} (error : HostError) : error.interrupt.Avoids hidden := by
  cases error with
  | own message | wrapping text token message hint => exact host_avoids _
  | raised token message hint => exact failure_avoids _

private theorem escaped_avoids {hidden : FrameId → Prop} (cause : Interrupt) : cause.escaped.Avoids hidden := by
  cases cause with
  | host fault => exact host_avoids fault
  | _ => exact failure_avoids _

private theorem screening_interrupts : (screening first second).KeepsInterrupts where
  name _ _ := failure_avoids _
  target _ _ := failure_avoids _
  operands _ _ := failure_avoids _
  operand _ _ := failure_avoids _
  call _ _ _ := failure_avoids _
  missingExpression _ := host_avoids _
  native _ _ _ stops := by
    rcases native_interrupt stops with ⟨fault, _, rfl⟩ | ⟨error, _, rfl⟩ | ⟨_, text, rfl⟩
    · exact host_avoids fault
    · exact handed_avoids error
    · exact failure_avoids _
  passed avoids := avoids
  shown _ avoids := atCall_avoids avoids _
  refused _ _ := handed_avoids _
  missingStatement _ := host_avoids _
  breakLoop _ := by rintro _ _ ⟨⟩
  continueLoop _ := by rintro _ _ ⟨⟩
  returnValue _ avoids := by
    rintro _ _ ⟨⟩
    exact avoids
  returned avoids := avoids _ _ rfl
  thrown avoids := avoids
  unlooped avoids _ _ := avoids
  escaped _ _ := escaped_avoids _

private theorem screening_lawful : (screening first second).Lawful :=
  ⟨screening_trees, screening_machines, screening_interrupts⟩

private theorem AlikeInReach.screened (alike : AlikeInReach first second) : (screening first second).machine first second := by
  have reach : ∀ {frame : FrameId} {found}, ¬first.Hides frame → first.heap.frames[frame]? = some found →
      first.heap.Reachable first.frame frame := by
    intro frame found unhidden known
    refine Classical.byContradiction fun unreached => ?_
    exact unhidden ⟨(Array.getElem?_eq_some_iff.mp known).1, unreached⟩
  have sized : second.heap.frames.size = first.heap.frames.size := by
    simpa only [Array.size_map] using congrArg Array.size alike.outers
  refine ⟨alike.same, fun hidden => hidden.2 .start, ?_⟩
  constructor
  case grown => exact Nat.le_refl _
  case sized => exact sized
  case others =>
    intro frame unhidden
    cases known : first.heap.frames[frame]? with
    | some found => exact (alike.reach frame (reach unhidden known)).trans known
    | none =>
      have beyond := Array.getElem?_eq_none_iff.mp known
      exact Array.getElem?_eq_none (Nat.le_trans (Nat.le_of_eq sized) beyond)
  case kept => exact fun frame _ => ⟨rfl, rfl⟩
  case outer =>
    intro frame found unhidden known outer around hidden
    exact hidden.2 (.outer (reach unhidden known) known around)
  case bound =>
    rintro frame found unhidden known ⟨name, _⟩ bound closure rfl hidden
    exact hidden.2 (.closure (reach unhidden known) known bound)

private theorem undisturbed {α : Type} {results : α → Prop} {causes : Interrupt → Prop} {outcome other : Outcome α}
    (akin : (screening first second).Outcomes results causes outcome other) : Undisturbed first second outcome other := by
  cases akin with
  | @value result a b _ still => exact .ended (.ok result) still.1 still.2.2.others still.2.2.kept
  | @interrupted cause a b _ still => exact .ended (.error cause) still.1 still.2.2.others still.2.2.kept
  | outOfFuel => exact .outOfFuel
  | cutOff never => exact never.elim

/-- Frames out of reach are neither read nor written. -/
theorem hidden_frames_undisturbed (alike : AlikeInReach first second) (fuel : Nat) :
    (∀ expr, Undisturbed first second (evaluate fuel expr first) (evaluate fuel expr second)) ∧
    (∀ stmt, Undisturbed first second (execute fuel stmt first) (execute fuel stmt second)) ∧
    ∀ stmts, Undisturbed first second (executeAll fuel stmts first) (executeAll fuel stmts second) := by
  have runs : ∀ task, (screening first second).Fits .top task →
      Undisturbed first second (task.run fuel first) (task.run fuel second) :=
    fun _ fits => undisturbed (screening_lawful.runs fuel fits alike.screened)
  refine ⟨?_, ?_, ?_⟩
  · intro expr
    exact runs (.evaluate expr) trivial
  · intro stmt
    exact runs (.execute stmt) trivial
  · intro stmts
    exact runs (.executeAll stmts) fun _ _ => trivial

end

/-- A machine with a frame to which nothing leads, and which binds `x`. -/
def withHidden (value : Value) : Machine :=
  { start {} with heap := ⟨#[⟨[], []⟩, ⟨[0], [(utf8 'x', value)]⟩]⟩ }

/-- `{ x = true; }` where `x` is bound out of reach only. -/
def assignInBlock : Stmt :=
  .block [.expression (.assign { kind := .identifier, lexeme := utf8 'x' } (.literal (.bool true) {}))] {}

theorem withHidden_undisturbed : AlikeInReach (withHidden .null) (withHidden (.bool false)) ∧ (withHidden .null).Hides 1 ∧
    (∃ error after, execute 5 assignInBlock (withHidden .null) = .interrupted (.failure error) after) ∧
    Undisturbed (withHidden .null) (withHidden (.bool false)) (execute 5 assignInBlock (withHidden .null))
      (execute 5 assignInBlock (withHidden (.bool false))) := by
  have reach : ∀ frame, (withHidden .null).heap.Reachable 0 frame → frame = 0 := by
    intro frame reachable
    induction reachable with
    | start => rfl
    | outer _ known around ih =>
      subst ih
      cases known
      cases around
    | closure _ known bound ih =>
      subst ih
      cases known
      cases bound
  have alike : AlikeInReach (withHidden .null) (withHidden (.bool false)) := by
    refine ⟨rfl, by simp [withHidden], fun frame reachable => ?_⟩
    cases reach frame reachable
    rfl
  refine ⟨alike, ⟨by decide, fun reachable => ?_⟩, ⟨_, _, rfl⟩, (hidden_frames_undisturbed alike 5).2.1 assignInBlock⟩
  cases reach 1 reachable

end Machine
end Treewalk
