import Treewalk.Proofs.HeldValues

/-! Frames as a tree. A frame is made inside another one, its parent, which was there before it, or outside of all.
The frames around it are those that one comes to by going from parent to parent. A search for a name goes this way and
stops at the first frame that binds the name. -/

namespace Treewalk.Heap

/-- The frame inside which a frame was made. -/
def parent? (heap : Heap) (frame : FrameId) : Option FrameId :=
  heap.frames[frame]? >>= (·.outer.head?)

/-- The heaps that come about when frames are made, and names are defined and assigned in them. -/
inductive Built : Heap → Prop where
  | empty : Built .empty
  | alloc {heap : Heap} (before : Built heap) (parent : Option FrameId) : Built (heap.alloc parent).2
  | define {heap : Heap} (before : Built heap) (frame : FrameId) (name : Bytes) (value : Value) :
      Built (heap.define frame name value)
  | assign {heap after : Heap} (before : Built heap) {frame : FrameId} {name : Token} {value : Value} {search : FuzzySearch}
      (assigns : heap.assign frame name value search = .ok after) : Built after

inductive Around (heap : Heap) : FrameId → FrameId → Prop where
  | self (frame : FrameId) : Around heap frame frame
  | outside {frame parent outer : FrameId} (inside : heap.parent? frame = some parent) (beyond : Around heap parent outer) :
      Around heap frame outer

/-- A search for a name that starts in the first frame comes to the second. -/
inductive LooksInto (heap : Heap) (name : Bytes) : FrameId → FrameId → Prop where
  | self (frame : FrameId) : LooksInto heap name frame frame
  | outside {frame parent outer : FrameId} (unbound : heap.local? frame name = none)
      (inside : heap.parent? frame = some parent) (beyond : LooksInto heap name parent outer) :
      LooksInto heap name frame outer

/-- A search for a name that starts in a frame ends in `owner`, which binds it. -/
def Resolves (heap : Heap) (name : Bytes) (frame owner : FrameId) : Prop :=
  heap.LooksInto name frame owner ∧ heap.local? owner name ≠ none

/-- A frame lists the frames around its parent behind the parent, which was there before it. -/
structure Linked (heap : Heap) : Prop where
  chain : ∀ {frame : FrameId} {found : Frame} {parent : FrameId} {rest : List FrameId}, heap.frames[frame]? = some found →
    found.outer = parent :: rest → heap.chain parent = parent :: rest
  older : ∀ {frame : FrameId} {found : Frame} {parent : FrameId} {rest : List FrameId}, heap.frames[frame]? = some found →
    found.outer = parent :: rest → parent < frame

section

variable {heap : Heap} {frame : FrameId}

theorem chain_known {found : Frame} (known : heap.frames[frame]? = some found) :
    heap.chain frame = frame :: found.outer := by
  unfold chain
  rw [known]

theorem chain_cons {parent : FrameId} {rest : List FrameId} (around : heap.chain frame = parent :: rest) :
    parent = frame ∧ ∃ found, heap.frames[frame]? = some found := by
  unfold chain at around
  split at around
  next found known =>
    cases around
    exact ⟨rfl, found, known⟩
  next => cases around

theorem chain_define (owner : FrameId) (name : Bytes) (value : Value) :
    (heap.define owner name value).chain frame = heap.chain frame := by
  unfold chain
  rw [frames_define]
  by_cases here : owner = frame
  · rw [if_pos here]
    cases heap.frames[frame]? <;> rfl
  · rw [if_neg here]

theorem chain_alloc (parent : Option FrameId) (old : frame < heap.frames.size) :
    (heap.alloc parent).2.chain frame = heap.chain frame := by
  unfold chain
  rw [frames_alloc, if_neg (Nat.ne_of_lt old)]

theorem parent?_define (owner : FrameId) (name : Bytes) (value : Value) :
    (heap.define owner name value).parent? frame = heap.parent? frame := by
  unfold parent?
  rw [frames_define]
  split
  · cases heap.frames[frame]? <;> rfl
  · rfl

/-- What is assigned is defined in the frame where the name is found. -/
theorem assign_ok {after : Heap} {name : Token} {value : Value} {search : FuzzySearch}
    (assigns : heap.assign frame name value search = .ok after) :
    ∃ owner old, heap.find? frame name.lexeme = some (owner, old) ∧ after = heap.define owner name.lexeme value := by
  unfold assign Heap.owner at assigns
  split at assigns
  next => cases assigns
  next owner old found =>
    cases assigns
    exact ⟨owner, old, found, rfl⟩

end

namespace Linked

theorem empty : Linked .empty where
  chain known _ := by cases known
  older known _ := by cases known

theorem define {heap : Heap} (linked : heap.Linked) (owner : FrameId) (name : Bytes) (value : Value) :
    (heap.define owner name value).Linked := by
  have before : ∀ {frame : FrameId} {found : Frame}, (heap.define owner name value).frames[frame]? = some found →
      ∃ old, heap.frames[frame]? = some old ∧ old.outer = found.outer := by
    intro frame found known
    rw [frames_define] at known
    split at known
    · obtain ⟨old, there, rfl⟩ := Option.map_eq_some_iff.mp known
      exact ⟨old, there, rfl⟩
    · exact ⟨found, known, rfl⟩
  constructor
  · intro frame found parent rest known outer
    obtain ⟨old, there, same⟩ := before known
    rw [chain_define]
    exact linked.chain there (same.trans outer)
  · intro frame found parent rest known outer
    obtain ⟨old, there, same⟩ := before known
    exact linked.older there (same.trans outer)

theorem alloc {heap : Heap} (linked : heap.Linked) (inside : Option FrameId) : (heap.alloc inside).2.Linked := by
  -- The new frame lists what its parent listed before; the others list what they listed.
  have before : ∀ {frame : FrameId} {found : Frame} {parent : FrameId} {rest : List FrameId},
      (heap.alloc inside).2.frames[frame]? = some found → found.outer = parent :: rest →
      heap.chain parent = parent :: rest ∧ parent < frame := by
    intro frame found parent rest known outer
    rw [frames_alloc] at known
    split at known
    next new =>
      cases known
      cases inside with
      | none => cases outer
      | some given =>
        obtain ⟨rfl, _, there⟩ := chain_cons outer
        exact ⟨outer, new ▸ (Array.getElem?_eq_some_iff.mp there).1⟩
    next => exact ⟨linked.chain known outer, linked.older known outer⟩
  constructor
  · intro frame found parent rest known outer
    obtain ⟨around, _⟩ := before known outer
    obtain ⟨_, _, there⟩ := chain_cons around
    rw [chain_alloc inside (Array.getElem?_eq_some_iff.mp there).1]
    exact around
  · intro frame found parent rest known outer
    exact (before known outer).2

end Linked

theorem Built.linked {heap : Heap} (built : heap.Built) : heap.Linked := by
  induction built with
  | empty => exact .empty
  | alloc _ parent ih => exact ih.alloc parent
  | define _ frame name value ih => exact ih.define frame name value
  | assign _ assigns ih =>
    obtain ⟨owner, _, _, rfl⟩ := assign_ok assigns
    exact ih.define owner _ _

namespace Linked

variable {heap : Heap} (linked : heap.Linked) {frame : FrameId} {name : Bytes}
include linked

theorem parent_lt {parent : FrameId} (inside : heap.parent? frame = some parent) : parent < frame := by
  obtain ⟨found, known, first⟩ := Option.bind_eq_some_iff.mp inside
  obtain ⟨rest, outer⟩ := List.head?_eq_some_iff.mp first
  exact linked.older known outer

/-- The frames around a frame are its parent and the frames around that. -/
theorem chain_eq {found : Frame} (known : heap.frames[frame]? = some found) :
    heap.chain frame = frame :: ((heap.parent? frame).map heap.chain).getD [] := by
  have parent : heap.parent? frame = found.outer.head? := by
    unfold parent?
    rw [known]
    rfl
  rw [chain_known known, parent]
  cases outer : found.outer with
  | nil => rfl
  | cons first rest => exact congrArg _ (linked.chain known outer).symm

theorem find?_eq : heap.find? frame name =
    match heap.local? frame name with
    | some value => some (frame, value)
    | none => (heap.parent? frame).bind (heap.find? · name) := by
  cases known : heap.frames[frame]? with
  | none => simp [find?, Heap.chain, local?, parent?, known, findIn?]
  | some found =>
    unfold find?
    rw [linked.chain_eq known, findIn?]
    cases heap.local? frame name with
    | some value => rfl
    | none => cases heap.parent? frame <;> rfl

theorem find?_parent {parent : FrameId} (unbound : heap.local? frame name = none)
    (inside : heap.parent? frame = some parent) : heap.find? frame name = heap.find? parent name := by
  rw [linked.find?_eq, unbound, inside]
  rfl

/-- A name is found where a search for it ends. -/
theorem find?_iff {owner : FrameId} {value : Value} :
    heap.find? frame name = some (owner, value) ↔ heap.LooksInto name frame owner ∧ heap.local? owner name = some value := by
  constructor
  · -- A parent was there before the frame, so the number of the frame counts down.
    induction frame using Nat.strongRecOn with
    | ind frame ih =>
      intro finds
      rw [linked.find?_eq] at finds
      cases bound : heap.local? frame name with
      | some here =>
        rw [bound] at finds
        cases finds
        exact ⟨.self _, bound⟩
      | none =>
        rw [bound] at finds
        obtain ⟨parent, inside, beyond⟩ := Option.bind_eq_some_iff.mp finds
        obtain ⟨looks, there⟩ := ih parent (linked.parent_lt inside) beyond
        exact ⟨.outside bound inside looks, there⟩
  · rintro ⟨looks, bound⟩
    induction looks with
    | self frame => rw [linked.find?_eq, bound]
    | outside unbound inside _ ih => exact (linked.find?_parent unbound inside).trans (ih bound)

theorem find?_eq_none_iff : heap.find? frame name = none ↔ ∀ outer, heap.Around frame outer → heap.local? outer name = none := by
  constructor
  · intro missing outer around
    induction around with
    | self frame =>
      rw [linked.find?_eq] at missing
      cases bound : heap.local? frame name with
      | none => rfl
      | some here =>
        rw [bound] at missing
        cases missing
    | @outside frame parent outer inside _ ih =>
      rw [linked.find?_eq, inside] at missing
      cases bound : heap.local? frame name with
      | none =>
        rw [bound] at missing
        exact ih missing
      | some here =>
        rw [bound] at missing
        cases missing
  · intro unbound
    induction frame using Nat.strongRecOn with
    | ind frame ih =>
      rw [linked.find?_eq, unbound frame (.self frame)]
      cases inside : heap.parent? frame with
      | none => rfl
      | some parent =>
        exact ih parent (linked.parent_lt inside) fun outer beyond => unbound outer (.outside inside beyond)

theorem resolves_iff {owner : FrameId} : heap.Resolves name frame owner ↔ ∃ value, heap.find? frame name = some (owner, value) := by
  constructor
  · rintro ⟨looks, bound⟩
    obtain ⟨value, there⟩ := Option.ne_none_iff_exists'.mp bound
    exact ⟨value, linked.find?_iff.mpr ⟨looks, there⟩⟩
  · rintro ⟨value, finds⟩
    obtain ⟨looks, there⟩ := linked.find?_iff.mp finds
    exact ⟨looks, by rw [there]; exact Option.some_ne_none value⟩

/-- A search ends in one frame only. -/
theorem resolves_unique {owner other : FrameId} (first : heap.Resolves name frame owner)
    (second : heap.Resolves name frame other) : owner = other := by
  obtain ⟨_, one⟩ := linked.resolves_iff.mp first
  obtain ⟨_, two⟩ := linked.resolves_iff.mp second
  rw [one] at two
  cases two
  rfl

end Linked
end Treewalk.Heap
