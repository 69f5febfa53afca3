import Mathlib.Data.List.Forall2
import Mathlib.Data.List.Sort
import Treewalk.Proofs.FrameTrees

/-! The names that are visible from a frame. They are those that the frame or a frame around it binds, each once: names
bound further in come first, and those of one frame ascend. This order and the members settle the list, so that neither
the order in which names were bound nor the order in which a frame keeps them matters. -/

namespace Treewalk

theorem Bytes.precedes_iff {first second : Bytes} : first.precedes second = true ↔ first < second := by
  induction first generalizing second with
  | nil => cases second <;> simp [Bytes.precedes]
  | cons byte rest ih =>
    cases second with
    | nil => simp [Bytes.precedes]
    | cons other more => simp [Bytes.precedes, List.cons_lt_cons_iff, ih]

section

variable {name other : Bytes} {names : List Bytes}

theorem mem_insertName : other ∈ insertName name names ↔ other = name ∨ other ∈ names := by
  induction names with
  | nil => simp [insertName]
  | cons first rest ih =>
    rw [insertName]
    split
    next same =>
      rw [beq_iff_eq.mp same]
      simp
    next =>
      split
      · simp
      · simp only [List.mem_cons, ih]
        tauto

theorem insertName_ascending (ascending : names.Pairwise (· < ·)) : (insertName name names).Pairwise (· < ·) := by
  induction names with
  | nil => exact List.pairwise_singleton _ _
  | cons first rest ih =>
    obtain ⟨below, later⟩ := List.pairwise_cons.mp ascending
    rw [insertName]
    split
    next => exact ascending
    next differs =>
      split
      next before =>
        have least := Bytes.precedes_iff.mp before
        refine List.pairwise_cons.mpr ⟨fun other member => ?_, ascending⟩
        rcases List.mem_cons.mp member with rfl | member
        · exact least
        · exact List.lt_trans least (below other member)
      next behind =>
        have least : first < name := by
          have apart : first ≠ name := fun same => differs (beq_iff_eq.mpr same.symm)
          exact Std.lt_of_le_of_ne (List.not_lt.mp (mt Bytes.precedes_iff.mpr behind)) apart
        refine List.pairwise_cons.mpr ⟨fun other member => ?_, ih later⟩
        rcases mem_insertName.mp member with rfl | member
        · exact least
        · exact below other member

theorem mem_sortNames : other ∈ sortNames names ↔ other ∈ names := by
  induction names with
  | nil => rfl
  | cons first rest ih => exact mem_insertName.trans ((or_congr Iff.rfl ih).trans List.mem_cons.symm)

theorem sortNames_ascending (names : List Bytes) : (sortNames names).Pairwise (· < ·) := by
  induction names with
  | nil => exact .nil
  | cons first rest ih => exact insertName_ascending ih

end

namespace Heap

/-- The names of a frame that were not seen before, in ascending order. -/
def fresh (heap : Heap) (seen : List Bytes) (frame : FrameId) : List Bytes :=
  sortNames ((heap.localNames frame).filter fun name => !seen.contains name)

/-- The first name comes before the second among the names visible from a frame: it is bound further in, or in the same
frame and is less. -/
def ListedBefore (heap : Heap) (frame : FrameId) (first second : Bytes) : Prop :=
  ∃ inner outer, heap.Resolves first frame inner ∧ heap.Resolves second frame outer ∧
    (inner = outer ∧ first < second ∨ inner ≠ outer ∧ heap.Around inner outer)

section

variable {heap : Heap} {frame : FrameId} {name : Bytes}

theorem mem_localNames : name ∈ heap.localNames frame ↔ heap.local? frame name ≠ none := by
  unfold localNames local?
  cases heap.frames[frame]? with
  | none => simp
  | some found => simp [Frame.names, Frame.get?, List.lookup_eq_none_iff]

/-- The order in which a frame keeps its names says nothing about which it binds. -/
theorem unbound_of_perm {other : Heap} {place : FrameId} (perm : (heap.localNames frame).Perm (other.localNames place))
    (name : Bytes) : heap.local? frame name = none ↔ other.local? place name = none := by
  rw [← not_iff_not, ← ne_eq, ← ne_eq, ← mem_localNames, ← mem_localNames]
  exact perm.mem_iff

theorem namesIn_cons (seen : List Bytes) (frames : List FrameId) :
    heap.namesIn seen (frame :: frames) = heap.fresh seen frame ++ heap.namesIn (seen ++ heap.fresh seen frame) frames :=
  rfl

theorem mem_fresh {seen : List Bytes} : name ∈ heap.fresh seen frame ↔ heap.local? frame name ≠ none ∧ name ∉ seen := by
  unfold fresh
  rw [mem_sortNames, List.mem_filter, mem_localNames]
  simp

theorem fresh_ascending (seen : List Bytes) : (heap.fresh seen frame).Pairwise (· < ·) :=
  sortNames_ascending _

theorem mem_namesIn {seen : List Bytes} {frames : List FrameId} :
    name ∈ heap.namesIn seen frames ↔ name ∉ seen ∧ heap.findIn? name frames ≠ none := by
  induction frames generalizing seen with
  | nil => simp [namesIn, findIn?]
  | cons frame rest ih =>
    rw [namesIn_cons, List.mem_append, ih, List.mem_append, mem_fresh, findIn?]
    cases heap.local? frame name with
    | some value => simp
    | none => simp

/-- What is listed behind the names of a frame is not bound in that frame. -/
theorem unbound_behind {seen : List Bytes} {frames : List FrameId}
    (member : name ∈ heap.namesIn (seen ++ heap.fresh seen frame) frames) : heap.local? frame name = none := by
  have unseen := (mem_namesIn.mp member).1
  rw [List.mem_append, mem_fresh] at unseen
  by_contra bound
  exact unseen (.inr ⟨bound, fun before => unseen (.inl before)⟩)

theorem fresh_ordered (seen : List Bytes) : (heap.fresh seen frame).Pairwise (heap.ListedBefore frame) := by
  refine (fresh_ascending seen).imp_of_mem fun first second less => ?_
  have one := (mem_fresh.mp first).1
  have two := (mem_fresh.mp second).1
  exact ⟨frame, frame, ⟨.self frame, one⟩, ⟨.self frame, two⟩, .inl ⟨rfl, less⟩⟩

theorem mem_names : name ∈ heap.names frame ↔ heap.find? frame name ≠ none := by
  unfold names find?
  rw [mem_namesIn]
  simp

/-- What is listed depends on which names the frames bind, and on nothing else. -/
theorem namesIn_alike {other : Heap} {frames places : List FrameId}
    (alike : List.Forall₂ (fun frame place => ∀ name, heap.local? frame name = none ↔ other.local? place name = none)
      frames places) (seen : List Bytes) : heap.namesIn seen frames = other.namesIn seen places := by
  induction alike generalizing seen with
  | nil => rfl
  | @cons frame place _ _ same _ ih =>
    have fresh : heap.fresh seen frame = other.fresh seen place := by
      refine (fresh_ascending seen).eq_of_mem_iff (fresh_ascending seen) fun name => ?_
      rw [mem_fresh, mem_fresh]
      exact and_congr_left' (not_congr (same name))
    rw [namesIn_cons, namesIn_cons, fresh, ih]

theorem get_undefined_iff {name : Token} {search : FuzzySearch} :
    (∃ guess, heap.get frame name search = .error ⟨name, .undefinedVariable guess⟩) ↔ heap.find? frame name.lexeme = none := by
  unfold get
  cases heap.find? frame name.lexeme with
  | none => exact ⟨fun _ => rfl, fun _ => ⟨_, rfl⟩⟩
  | some found =>
    obtain ⟨_, value⟩ := found
    cases value <;> simp

theorem LooksInto.around {owner : FrameId} (looks : heap.LooksInto name frame owner) : heap.Around frame owner := by
  induction looks with
  | self frame => exact .self frame
  | outside _ inside _ ih => exact .outside inside ih

theorem Resolves.outside {parent owner : FrameId} (resolves : heap.Resolves name parent owner)
    (unbound : heap.local? frame name = none) (inside : heap.parent? frame = some parent) :
    heap.Resolves name frame owner :=
  ⟨.outside unbound inside resolves.1, resolves.2⟩

end

namespace Linked

variable {heap : Heap} (linked : heap.Linked)
include linked

theorem around_le {frame outer : FrameId} (around : heap.Around frame outer) : outer ≤ frame := by
  induction around with
  | self frame => exact Nat.le_refl frame
  | outside inside _ ih => exact Nat.le_trans ih (Nat.le_of_lt (linked.parent_lt inside))

/-- Names that were seen before leave the others in order. -/
theorem namesIn_ordered (frame : FrameId) (seen : List Bytes) :
    (heap.namesIn seen (heap.chain frame)).Pairwise (heap.ListedBefore frame) := by
  -- The number of the frame counts down from parent to parent.
  induction frame using Nat.strongRecOn generalizing seen with
  | ind frame ih =>
    cases known : heap.frames[frame]? with
    | none => simp [Heap.chain, known, namesIn]
    | some found =>
      rw [linked.chain_eq known, namesIn_cons]
      cases inside : heap.parent? frame with
      | none =>
        rw [Option.map_none, Option.getD_none, namesIn, List.append_nil]
        exact fresh_ordered seen
      | some parent =>
        rw [Option.map_some, Option.getD_some]
        have older := linked.parent_lt inside
        refine List.pairwise_append.mpr ⟨fresh_ordered seen, ?_, ?_⟩
        · refine (ih parent older _).imp_of_mem ?_
          rintro first second one two ⟨inner, outer, here, there, order⟩
          exact ⟨inner, outer, here.outside (unbound_behind one) inside, there.outside (unbound_behind two) inside, order⟩
        · intro first one second two
          obtain ⟨⟨outer, value⟩, finds⟩ := Option.ne_none_iff_exists'.mp (mem_namesIn.mp two).2
          have there : heap.Resolves second parent outer := linked.resolves_iff.mpr ⟨value, finds⟩
          have beyond := there.1.around
          have apart : frame ≠ outer := (Nat.lt_of_le_of_lt (linked.around_le beyond) older).ne'
          exact ⟨frame, outer, ⟨.self frame, (mem_fresh.mp one).1⟩, there.outside (unbound_behind two) inside,
            .inr ⟨apart, .outside inside beyond⟩⟩

theorem mem_names_iff {frame : FrameId} {name : Bytes} :
    name ∈ heap.names frame ↔ ∃ outer, heap.Around frame outer ∧ heap.local? outer name ≠ none := by
  rw [mem_names, ne_eq, linked.find?_eq_none_iff]
  simp only [not_forall, exists_prop, ne_eq]

theorem listedBefore_ne {frame : FrameId} {first second : Bytes} (before : heap.ListedBefore frame first second) :
    first ≠ second := by
  rintro rfl
  obtain ⟨inner, outer, here, there, ⟨_, less⟩ | ⟨apart, _⟩⟩ := before
  · exact List.lt_irrefl first less
  · exact apart (linked.resolves_unique here there)

theorem names_nodup (frame : FrameId) : (heap.names frame).Nodup :=
  (linked.namesIn_ordered frame []).imp linked.listedBefore_ne

end Linked

/-- The names visible from a frame are those that some frame around binds, that is, those that are not reported as
undefined. Each is listed once, under the innermost frame that binds it: those of inner frames come first, and those of
one frame ascend. Frames that bind the same names, one by one, see the same list. -/
theorem names_exactly_visible {heap : Heap} (built : heap.Built) (frame : FrameId) :
    (∀ name, name ∈ heap.names frame ↔ ∃ outer, heap.Around frame outer ∧ heap.local? outer name ≠ none) ∧
    (∀ (name : Token) (search : FuzzySearch), name.lexeme ∈ heap.names frame ↔
      ¬∃ guess, heap.get frame name search = .error ⟨name, .undefinedVariable guess⟩) ∧
    (heap.names frame).Nodup ∧
    (heap.names frame).Pairwise (heap.ListedBefore frame) ∧
    ∀ (other : Heap) (place : FrameId),
      List.Forall₂ (fun inner outer => ∀ name, heap.local? inner name = none ↔ other.local? outer name = none)
        (heap.chain frame) (other.chain place) → heap.names frame = other.names place := by
  have linked := built.linked
  refine ⟨fun name => linked.mem_names_iff, fun name search => ?_, linked.names_nodup frame, ?_, fun other place alike => ?_⟩
  · rw [mem_names, get_undefined_iff]
  · exact linked.namesIn_ordered frame []
  · exact namesIn_alike alike []

def nested (outer inner : List Bytes) : Heap :=
  let bind (names : List Bytes) : List (Bytes × Value) := names.map (·, .null)
  (((empty.alloc none).2.defineAll 0 (bind outer)).alloc (some 0)).2.defineAll 1 (bind inner)

theorem nested_names :
    let heap := nested [utf8 'c', utf8 'a', utf8 'b'] [utf8 'd', utf8 'b']
    heap.Built ∧ heap.names 1 = [utf8 'b', utf8 'd', utf8 'a', utf8 'c'] ∧ heap.ListedBefore 1 (utf8 'd') (utf8 'a') ∧
      heap.names 1 = (nested [utf8 'a', utf8 'b', utf8 'c'] [utf8 'b', utf8 'd']).names 1 := by
  intro heap
  have built : heap.Built :=
    .define (.define (.alloc (.define (.define (.define (.alloc .empty none) 0 _ _) 0 _ _) 0 _ _) (some 0)) 1 _ _) 1 _ _
  have listed : heap.names 1 = [utf8 'b', utf8 'd', utf8 'a', utf8 'c'] := by decide +kernel
  obtain ⟨_, _, _, ordered, independent⟩ := names_exactly_visible built 1
  refine ⟨built, listed, ?_, independent _ 1 (.cons (unbound_of_perm ?_) (.cons (unbound_of_perm ?_) .nil))⟩
  · rw [listed] at ordered
    exact (List.pairwise_cons.mp (List.pairwise_cons.mp ordered).2).1 _ List.mem_cons_self
  · decide +kernel
  · decide +kernel

end Heap
end Treewalk
