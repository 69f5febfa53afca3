import Treewalk.Proofs.VisibleNames

/-! Where an update of a frame is seen. Defining a name changes one binding of one frame, which every search that comes
to the frame then finds. Assigning to a name does that to the frame where the name is found, and so is seen from
exactly the frames from which the name is found there. -/

namespace Treewalk

theorem lookup_bindName (name other : Bytes) (value : Value) (bindings : List (Bytes × Value)) :
    (bindName name value bindings).lookup other = if other = name then some value else bindings.lookup other := by
  induction bindings with
  | nil =>
    by_cases same : other = name
    · simp [bindName, same]
    · simp [bindName, List.lookup_cons, same, beq_eq_false_iff_ne.mpr same]
  | cons binding rest ih =>
    obtain ⟨bound, old⟩ := binding
    rw [bindName]
    split
    next taken =>
      obtain rfl := beq_iff_eq.mp taken
      by_cases same : other = bound
      · simp [same]
      · simp [List.lookup_cons, same, beq_eq_false_iff_ne.mpr same]
    next free =>
      by_cases here : other = bound
      · subst here
        have apart : other ≠ name := by simpa using free
        simp [apart]
      · simp [List.lookup_cons, beq_eq_false_iff_ne.mpr here, ih]

namespace Heap

/-- Two lookups that end with the same value, or with the same kind of error at the same name. -/
inductive LookupsAgree : Except RuntimeError Value → Except RuntimeError Value → Prop where
  | value (found : Value) : LookupsAgree (.ok found) (.ok found)
  | uninitialized (name : Token) :
      LookupsAgree (.error ⟨name, .uninitializedVariable⟩) (.error ⟨name, .uninitializedVariable⟩)
  | undefined (name : Token) (guess other : Option Bytes) :
      LookupsAgree (.error ⟨name, .undefinedVariable guess⟩) (.error ⟨name, .undefinedVariable other⟩)

section

variable {heap other : Heap} {frame owner : FrameId} {name : Token} {value : Value} {search : FuzzySearch}

/-- A name is bound in one frame, and nothing else changes. -/
theorem local?_define (known : owner < heap.frames.size) (bound : Bytes) (value : Value) (frame : FrameId) (name : Bytes) :
    (heap.define owner bound value).local? frame name =
      if frame = owner ∧ name = bound then some value else heap.local? frame name := by
  unfold local?
  rw [frames_define]
  by_cases here : owner = frame
  · subst here
    rw [if_pos rfl, Array.getElem?_eq_getElem known]
    simpa [Frame.get?, Frame.set] using lookup_bindName bound name value _
  · rw [if_neg here, if_neg fun same => here same.1.symm]

theorem local?_known {bound : Bytes} (there : heap.local? frame bound = some value) : frame < heap.frames.size := by
  obtain ⟨found, known, _⟩ := Option.bind_eq_some_iff.mp there
  exact (Array.getElem?_eq_some_iff.mp known).1

theorem get_of_find? (finds : heap.find? frame name.lexeme = some (owner, value)) (initialized : value ≠ .uninitialized) :
    heap.get frame name search = .ok value := by
  unfold get
  rw [finds]
  cases value with
  | uninitialized => exact absurd rfl initialized
  | _ => rfl

theorem get_agrees (same : other.find? frame name.lexeme = heap.find? frame name.lexeme) :
    LookupsAgree (other.get frame name search) (heap.get frame name search) := by
  unfold get
  rw [same]
  cases heap.find? frame name.lexeme with
  | none => exact .undefined name _ _
  | some found =>
    obtain ⟨_, value⟩ := found
    cases value with
    | uninitialized => exact .uninitialized name
    | _ => exact .value _

/-- Without new names no guess changes. -/
theorem get_same (same : other.find? frame name.lexeme = heap.find? frame name.lexeme)
    (names : other.names frame = heap.names frame) : other.get frame name search = heap.get frame name search := by
  unfold get undefinedError
  rw [same, names]

/-- A name that is bound anew where it was bound is no new name. -/
theorem names_rebind {bound : Bytes} (there : heap.local? owner bound = some value) (new : Value) (frame : FrameId) :
    (heap.define owner bound new).names frame = heap.names frame := by
  unfold names
  rw [chain_define]
  refine namesIn_alike (List.forall₂_same.mpr fun place _ name => ?_) []
  rw [local?_define (local?_known there)]
  by_cases same : place = owner ∧ name = bound
  · rw [if_pos same, same.1, same.2, there]
    simp
  · rw [if_neg same]

end

section

variable {heap : Heap} (linked : heap.Linked) {owner : FrameId} (known : owner < heap.frames.size) (bound : Bytes)
  (value : Value)
include linked known

/-- Every search for the name that comes to the frame finds the new binding. -/
theorem find?_define {frame : FrameId} (looks : heap.LooksInto bound frame owner) :
    (heap.define owner bound value).find? frame bound = some (owner, value) := by
  refine (linked.define owner bound value).find?_iff.mpr ⟨?_, ?_⟩
  · induction looks with
    | self frame => exact .self frame
    | @outside frame parent outer unbound inside _ ih =>
      by_cases here : frame = outer
      · exact here ▸ .self frame
      · refine .outside ?_ ?_ (ih known)
        · rw [local?_define known, if_neg fun same => here same.1]
          exact unbound
        · rw [parent?_define]
          exact inside
  · rw [local?_define known, if_pos ⟨rfl, rfl⟩]

theorem get_define {frame : FrameId} {read : Token} {search : FuzzySearch} (looks : heap.LooksInto bound frame owner)
    (same : read.lexeme = bound) (initialized : value ≠ .uninitialized) :
    (heap.define owner bound value).get frame read search = .ok value := by
  subst same
  exact get_of_find? (find?_define linked known read.lexeme value looks) initialized

/-- Every other search goes as before. -/
theorem find?_define_other {frame : FrameId} {name : Bytes} (other : ¬(name = bound ∧ heap.LooksInto bound frame owner)) :
    (heap.define owner bound value).find? frame name = heap.find? frame name := by
  -- The number of the frame counts down from parent to parent.
  induction frame using Nat.strongRecOn with
  | ind frame ih =>
    have apart : ¬(frame = owner ∧ name = bound) := by
      rintro ⟨rfl, rfl⟩
      exact other ⟨rfl, .self _⟩
    rw [(linked.define owner bound value).find?_eq, linked.find?_eq, local?_define known, if_neg apart, parent?_define]
    cases here : heap.local? frame name with
    | some old => rfl
    | none =>
      cases inside : heap.parent? frame with
      | none => rfl
      | some parent =>
        refine ih parent (linked.parent_lt inside) ?_
        rintro ⟨rfl, beyond⟩
        exact other ⟨rfl, .outside here inside beyond⟩

end

/-- An assignment fails exactly if the name is bound nowhere around. -/
theorem assign_error_iff {heap : Heap} {frame : FrameId} {name : Token} {value : Value} {search : FuzzySearch} :
    (∃ error, heap.assign frame name value search = .error error) ↔ heap.find? frame name.lexeme = none := by
  unfold assign owner
  cases found : heap.find? frame name.lexeme with
  | none => exact ⟨fun _ => rfl, fun _ => ⟨_, rfl⟩⟩
  | some binding =>
    constructor
    · rintro ⟨_, ⟨⟩⟩
    · rintro ⟨⟩

end Heap

/-- A failed assignment leaves the machine as it is. -/
theorem Run.assign_failed {machine : Machine} {name : Token} {value : Value} {error : RuntimeError}
    (fails : machine.heap.assign machine.frame name value machine.search = .error error) :
    Run.assign name value machine = .interrupted (.failure error) machine := by
  unfold Heap.assign at fails
  unfold Run.assign
  cases found : machine.heap.owner machine.frame name machine.search with
  | ok owner =>
    rw [found] at fails
    cases fails
  | error other =>
    rw [found] at fails
    cases fails
    rfl

namespace Heap

/-- An assignment changes the binding that a search for the name finds, or fails and changes nothing. What it assigns
is read from exactly those frames from which the name is found in the same frame, and nothing else is read otherwise
than before. A definition changes the one binding of its frame; it is read from every frame from which a search for the
name comes to that frame, and all other lookups go as before. -/
theorem updates_seen_in_scope {heap : Heap} (built : heap.Built) (frame : FrameId) (name : Token) {value : Value}
    (initialized : value ≠ .uninitialized) (search : FuzzySearch) :
    ((∃ error, heap.assign frame name value search = .error error) ↔
      ∀ outer, heap.Around frame outer → heap.local? outer name.lexeme = none) ∧
    (∀ machine error, machine.heap = heap → machine.frame = frame →
      heap.assign frame name value machine.search = .error error →
      Run.assign name value machine = .interrupted (.failure error) machine) ∧
    (∀ after, heap.assign frame name value search = .ok after →
      (∃ owner, heap.Resolves name.lexeme frame owner ∧ after = heap.define owner name.lexeme value) ∧
      ∀ (other : FrameId) (read : Token),
        (read.lexeme = name.lexeme →
          (∃ owner, heap.Resolves name.lexeme frame owner ∧ heap.Resolves name.lexeme other owner) →
          after.get other read search = .ok value) ∧
        (¬(read.lexeme = name.lexeme ∧
          ∃ owner, heap.Resolves name.lexeme frame owner ∧ heap.Resolves name.lexeme other owner) →
          after.get other read search = heap.get other read search)) ∧
    (frame < heap.frames.size →
      (∀ place bound, (heap.define frame name.lexeme value).local? place bound =
        if place = frame ∧ bound = name.lexeme then some value else heap.local? place bound) ∧
      (∀ place, (heap.define frame name.lexeme value).parent? place = heap.parent? place) ∧
      ∀ (other : FrameId) (read : Token),
        (read.lexeme = name.lexeme → heap.LooksInto name.lexeme other frame →
          (heap.define frame name.lexeme value).get other read search = .ok value) ∧
        (¬(read.lexeme = name.lexeme ∧ heap.LooksInto name.lexeme other frame) →
          LookupsAgree ((heap.define frame name.lexeme value).get other read search) (heap.get other read search))) := by
  have linked := built.linked
  refine ⟨assign_error_iff.trans linked.find?_eq_none_iff, ?_, ?_, ?_⟩
  · rintro machine error rfl rfl fails
    exact Run.assign_failed fails
  · intro after assigns
    obtain ⟨owner, old, finds, rfl⟩ := assign_ok assigns
    have resolves : heap.Resolves name.lexeme frame owner := linked.resolves_iff.mpr ⟨old, finds⟩
    have bound := (linked.find?_iff.mp finds).2
    have known := local?_known bound
    refine ⟨⟨owner, resolves, rfl⟩, fun other read => ⟨?_, ?_⟩⟩
    · rintro same ⟨common, here, there⟩
      obtain rfl := linked.resolves_unique resolves here
      exact get_define linked known name.lexeme value there.1 same initialized
    · intro apart
      refine get_same (find?_define_other linked known name.lexeme value ?_) (names_rebind bound value other)
      rintro ⟨same, looks⟩
      exact apart ⟨same, owner, resolves, looks, resolves.2⟩
  · intro known
    refine ⟨local?_define known name.lexeme value, fun place => parent?_define frame name.lexeme value, ?_⟩
    intro other read
    refine ⟨fun same looks => ?_, fun apart => ?_⟩
    · exact get_define linked known name.lexeme value looks same initialized
    · exact get_agrees (find?_define_other linked known name.lexeme value apart)

/-- A frame that binds `x`, and three frames in it: the second binds `x` anew, and the third is in the second. -/
def siblings : Heap :=
  let outer := (empty.alloc none).2.define 0 (utf8 'x') .null
  let inner := ((outer.alloc (some 0)).2.alloc (some 0)).2.define 2 (utf8 'x') .uninitialized
  (inner.alloc (some 2)).2

theorem siblings_updates :
    let x : Token := { kind := .identifier, lexeme := utf8 'x' }
    siblings.Built ∧ ∃ after, siblings.assign 1 x (.bool true) .standard = .ok after ∧
      after.get 0 x .standard = .ok (.bool true) ∧ after.get 3 x .standard = .error ⟨x, .uninitializedVariable⟩ ∧
      (siblings.define 2 x.lexeme (.bool true)).get 3 x .standard = .ok (.bool true) := by
  intro x
  have built : siblings.Built :=
    .alloc (.define (.alloc (.alloc (.define (.alloc .empty none) 0 _ _) (some 0)) (some 0)) 2 _ _) (some 2)
  have inner : siblings.Resolves x.lexeme 1 0 := ⟨.outside rfl rfl (.self 0), Option.some_ne_none _⟩
  have outer : siblings.Resolves x.lexeme 0 0 := ⟨.self 0, Option.some_ne_none _⟩
  have shadowed : siblings.Resolves x.lexeme 3 2 := ⟨.outside rfl rfl (.self 2), Option.some_ne_none _⟩
  have initialized : Value.bool true ≠ .uninitialized := Value.noConfusion
  obtain ⟨_, _, assigned, _⟩ := updates_seen_in_scope built 1 x initialized .standard
  obtain ⟨_, _, _, defined⟩ := updates_seen_in_scope built 2 x initialized .standard
  refine ⟨built, siblings.define 0 x.lexeme (.bool true), rfl, ?_, ?_, ?_⟩
  · exact ((assigned _ rfl).2 0 x).1 rfl ⟨0, inner, outer⟩
  · refine ((assigned _ rfl).2 3 x).2 ?_
    rintro ⟨_, owner, here, there⟩
    obtain rfl := built.linked.resolves_unique inner here
    exact absurd (built.linked.resolves_unique shadowed there) (by decide)
  · exact ((defined (by decide)).2.2 3 x).1 rfl shadowed.1

end Heap
end Treewalk
