import Treewalk.Proofs.RunKinship

/-! What the frames of a heap hold. A lookup yields what one of the frames around holds, and a definition
adds nothing but its value. So what is true of all the values that a run makes stays true of all the
values that it finds. -/

namespace Treewalk

theorem mem_bindName {name : Bytes} {value : Value} {bindings : List (Bytes × Value)} {binding : Bytes × Value}
    (bound : binding ∈ bindName name value bindings) : binding = (name, value) ∨ binding ∈ bindings := by
  induction bindings with
  | nil => exact .inl (List.mem_singleton.mp bound)
  | cons head rest ih =>
    rw [bindName] at bound
    split at bound
    · exact (List.mem_cons.mp bound).imp_right (.tail _)
    · rcases List.mem_cons.mp bound with rfl | later
      · exact .inr List.mem_cons_self
      · exact (ih later).imp_right (.tail _)

namespace Heap

variable {heap : Heap} {frame owner : FrameId} {value : Value}

theorem findIn?_bound {name : Bytes} {frames : List FrameId} (finds : heap.findIn? name frames = some (owner, value)) :
    owner ∈ frames ∧ ∃ found, heap.frames[owner]? = some found ∧ (name, value) ∈ found.bindings := by
  induction frames with
  | nil => cases finds
  | cons head rest ih =>
    rw [findIn?] at finds
    split at finds
    next here =>
      cases finds
      obtain ⟨found, known, bound⟩ := Option.bind_eq_some_iff.mp here
      obtain ⟨before, after, split, _⟩ := List.lookup_eq_some_iff.mp bound
      exact ⟨List.mem_cons_self, found, known, by rw [split]; simp⟩
    next => exact (ih finds).imp_left (.tail _)

/-- A value that is found is bound in a frame around. -/
theorem get_bound {name : Token} {search : FuzzySearch} (finds : heap.get frame name search = .ok value) : value ≠ .uninitialized ∧
    ∃ owner ∈ heap.chain frame, ∃ found, heap.frames[owner]? = some found ∧ (name.lexeme, value) ∈ found.bindings := by
  unfold get at finds
  split at finds
  · cases finds
  · cases finds
  next owner _ initialized bound =>
    cases finds
    have inside := findIn?_bound bound
    exact ⟨initialized, owner, inside.1, inside.2⟩

theorem owner_mem {name : Token} {search : FuzzySearch} (finds : heap.owner frame name search = .ok owner) : owner ∈ heap.chain frame := by
  unfold Heap.owner at finds
  split at finds
  · cases finds
  next bound =>
    cases finds
    exact (findIn?_bound bound).1

theorem frames_define (name : Bytes) (value : Value) (other : FrameId) : (heap.define frame name value).frames[other]? =
    if frame = other then heap.frames[other]?.map (·.set name value) else heap.frames[other]? :=
  Array.getElem?_modify

theorem frames_alloc (parent : Option FrameId) (other : FrameId) : (heap.alloc parent).2.frames[other]? =
    if other = heap.frames.size then some ⟨(parent.map heap.chain).getD [], []⟩ else heap.frames[other]? :=
  Array.getElem?_push

/-- Every value that is bound is of one sort. -/
def Holds (held : Value → Prop) (heap : Heap) : Prop :=
  ∀ (frame : FrameId) (found : Frame), heap.frames[frame]? = some found → ∀ binding ∈ found.bindings, held binding.2

variable {held : Value → Prop}

theorem Holds.define (holds : heap.Holds held) (name : Bytes) (allowed : held value) :
    (heap.define frame name value).Holds held := by
  intro other found known binding bound
  rw [frames_define] at known
  split at known
  · obtain ⟨old, before, rfl⟩ := Option.map_eq_some_iff.mp known
    rcases mem_bindName bound with rfl | kept
    · exact allowed
    · exact holds other old before binding kept
  · exact holds other found known binding bound

theorem Holds.alloc (holds : heap.Holds held) (parent : Option FrameId) : (heap.alloc parent).2.Holds held := by
  intro other found known binding bound
  rw [frames_alloc] at known
  split at known
  · cases known
    cases bound
  · exact holds other found known binding bound

theorem Holds.defineAll (holds : heap.Holds held) {bindings : List (Bytes × Value)}
    (allowed : ∀ binding ∈ bindings, held binding.2) : (heap.defineAll frame bindings).Holds held := by
  induction bindings generalizing heap with
  | nil => exact holds
  | cons binding rest ih =>
    exact ih (holds.define binding.1 (allowed binding List.mem_cons_self)) fun other inside => allowed other (.tail _ inside)

end Heap

/-- A machine without built-in functions holds nothing. -/
theorem Machine.bare_holds (options : Options) (held : Value → Prop) : (bare options).heap.Holds held := by
  have empty : Heap.empty.Holds held := by
    intro frame found known
    cases known
  exact empty.alloc none

namespace Machine.Kinship

/-- A machine beside itself, with nothing in its heap but values that may be met, and no other errors in
store at its host than those that may be handed over. -/
def Alone (value : Value → Prop) (handed : HostError → Prop) (a b : Machine) : Prop :=
  b = a ∧ (a.heap.Holds fun held => value held ∨ held = .uninitialized) ∧ ∀ error, a.HandsOver error → handed error

theorem Alone.keeps {kin : Kinship} (alone : kin.machine = Alone kin.value kin.handed) : kin.KeepsMachines := by
  constructor
  all_goals
    simp only [alone]
    intro a b
  case same =>
    rintro ⟨rfl, _⟩
    rfl
  case handsOver =>
    rintro error ⟨_, _, hands⟩
    exact hands error
  case outside =>
    rintro input output trace nextId ticks ⟨rfl, holds, _⟩ hands
    exact ⟨rfl, holds, hands⟩
  case room =>
    rintro ⟨rfl, _⟩ room
    exact room
  case full =>
    rintro ⟨rfl, _⟩ full room
    exact absurd room full
  case enter =>
    rintro ⟨rfl, holds, hands⟩ _
    exact ⟨rfl, holds, hands⟩
  case leave =>
    rintro ⟨rfl, holds, hands⟩
    exact ⟨rfl, holds, hands⟩
  case lookup | owner =>
    rintro name ⟨rfl, _⟩
    rfl
  case found =>
    rintro name value ⟨rfl, holds, _⟩ finds
    obtain ⟨initialized, owner, _, found, known, bound⟩ := Heap.get_bound finds
    exact (holds owner found known _ bound).resolve_right initialized
  case assign =>
    rintro name owner value ⟨rfl, holds, hands⟩ _ allowed
    exact ⟨rfl, holds.define _ (.inl allowed), hands⟩
  case define =>
    rintro value name ⟨rfl, holds, hands⟩ allowed
    exact ⟨rfl, holds.define _ allowed, hands⟩
  case opened =>
    rintro parent bindings ⟨rfl, holds, hands⟩ _ allowed
    exact ⟨rfl, (holds.alloc (some parent)).defineAll fun binding inside => .inl (allowed binding inside), hands⟩
  case back =>
    rintro first second ⟨rfl, _⟩ ⟨rfl, holds, hands⟩
    exact ⟨rfl, holds, hands⟩

end Machine.Kinship
end Treewalk
