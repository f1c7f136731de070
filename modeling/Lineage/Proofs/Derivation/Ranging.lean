import Lineage.Proofs.Derivation.Marking
import Lineage.Proofs.Derivation.Queries

/-!
Operands and nodes that are there.

All operands that a decoded program can get at are in the store, and all operands and nodes that a
tracker keeps a note of are in the store and in its graph. This holds between the steps of a
machine, and at the moment when an instruction is decided on and has had no effect yet, whatever the
input source is.
-/

namespace Lineage

variable {m m' : Machine Tracker} {s t : Store} {i : Instruction} {id : OperandId}
  {r : Except Fault Bool}

/-- What the tracker refers to is there: the nodes of bound operands, of other nodes and of what is
pending, and the operands that are pending or marked. -/
structure Tracker.Ranged (t : Tracker) (s : Store) : Prop where
  bound : s.BoundIn t.graph
  nodes : ∀ {n}, n < t.graph.size → (t.graph.node n).Within n
  pending : ∀ x ∈ t.pending, x.target < s.operands.size ∧ x.Within t.graph.size
  marked : ∀ id ∈ t.marked, id < s.operands.size

namespace Machine

lemma Decoded.sameFrame {ω : Type} {m m' : Machine ω} (h : m.Decoded)
    (hs : m.store.SameFrame m'.store) (hp : m'.program = m.program) : m'.Decoded := by
  refine ⟨hs.laid h.laid, fun i hi => ?_⟩
  rw [hp] at hi
  exact (h.complete i hi).congr hs.size hs.kind

lemma mem_marked_adopted (hb : ¬ m.Branches) : id ∈ m.adopted.marked ↔ id ∈ m.observer.marked ∨
    (m.store.operand id).kind.isConstant = false ∧ id ∈ m.decision.marks := by
  have hlooked := m.planned_looked
  rw [adopted, Tracker.mem_marked_adopt _ _ fun taken pc x hd => hb ⟨taken, pc, x, hd⟩,
    hlooked.tracker, hlooked.store.operand]

lemma marked_adopted_of_branches (hb : m.Branches) : m.adopted.marked = [] := by
  obtain ⟨taken, pc, x, hd⟩ := hb
  rw [adopted, hd, Tracker.marked_adopt_branch]

/-- The program is decoded, and the operands that the tracker keeps a note of are there. -/
structure Placed (m : Machine Tracker) : Prop extends m.Decoded where
  target : ∀ x ∈ m.observer.pending, x.target < m.store.operands.size
  marked : ∀ id ∈ m.observer.marked, id < m.store.operands.size

namespace Placed

lemma marks_lt (h : m.Placed) (hid : id ∈ m.decision.marks) : id < m.store.operands.size :=
  h.next.reaches_lt h.laid ((Tracker.plans_plan _ _).reaches hid)

lemma adopted_marked (h : m.Placed) (hid : id ∈ m.adopted.marked) :
    id < m.store.operands.size := by
  by_cases hb : m.Branches
  · rw [marked_adopted_of_branches hb] at hid
    cases hid
  · rcases (mem_marked_adopted hb).1 hid with hid | ⟨-, hid⟩
    · exact h.marked id hid
    · exact h.marks_lt hid

lemma adopted_target (h : m.Placed) {x : Pending} (hx : m.adopted.pending = some x) :
    x.target < m.store.operands.size := by
  by_cases hd : m.decision.marks = []
  · have hlooked := m.planned_looked.tracker
    rw [adopted, Tracker.adopt_of_marks _ _ hd, hlooked] at hx
    cases hx
  · obtain ⟨y, hy, -, hmarks⟩ := Tracker.pending_adopt m.planned.2.1 m.planned.2.2 hd
    rw [adopted, hy] at hx
    cases hx
    exact h.marks_lt hmarks

lemma step (h : m.Placed) (hc : m.Course r m') : m'.Placed := by
  have hframe := hc.sameFrame
  refine ⟨h.toDecoded.sameFrame hframe hc.program, ?_, ?_⟩
  · rw [hframe.size]
    cases hc with
    | fault => exact fun x hx => h.adopted_target hx
    | done =>
      intro x hx
      rw [Tracker.pending_settle] at hx
      cases hx
  · rw [hframe.size]
    cases hc with
    | fault => exact fun id hid => h.adopted_marked hid
    | done =>
      intro id hid
      rw [Tracker.marked_settle] at hid
      exact h.adopted_marked hid

lemma after (h : m.Placed) (n : Nat) : (m.after n).Placed := by
  induction n with
  | zero => exact h
  | succ n ih => exact ih.step (m.after n).step_course

end Placed

lemma placed_of_loadText {program : String} (hl : s.Laid)
    (h : loadText { store := s, observer := {} } program = (.ok (), m)) : m.Placed := by
  refine ⟨decoded_of_loadText hl h, ?_, ?_⟩ <;> rw [(decode_of_loadText h).2] <;> exact nofun

/-- The references of the tracker are in range between two steps, -/
lemma Placed.ranged {ρ : Renaming} (h : m.Placed) (ht : Twin ρ m m) :
    m.observer.Ranged m.store where
  bound := ht.bound
  nodes := ht.observer.graph.consed.within
  pending x hx := ⟨h.target x hx, ht.observer.within x hx⟩
  marked := h.marked

/-- and they are when the next decision has been taken. -/
lemma Placed.ranged_adopted {ρ : Renaming} (h : m.Placed) (ht : Twin ρ m m) :
    m.adopted.Ranged m.planned.2.2 := by
  obtain ⟨ρ', htwin, -, hbound, -⟩ := ht.adopted
  have hsize := m.planned_looked.store.sameFrame.size
  refine ⟨hbound, htwin.graph.consed.within, fun x hx => ⟨?_, htwin.within x hx⟩, fun id hid => ?_⟩
  · rw [hsize]
    exact h.adopted_target hx
  · rw [hsize]
    exact h.adopted_marked hid

/-- The plan of the next step is its own mirror. -/
lemma Twin.mirrored_planned {ρ : Renaming} (h : Twin ρ m m) :
    ∃ ρ', Tracker.Mirrored ρ' m.planned.2 m.planned.2 ∧
      m.decision.Within m.planned.2.1.graph.size := by
  have hstart : Tracker.Mirrored ρ ({ m.observer with pending := none }, m.store)
      ({ m.observer with pending := none }, m.store) := ⟨h.observer.graph, h.store, h.bound⟩
  obtain ⟨ρ', -, hplanned, -, hwithin⟩ := Tracker.mirror_plan hstart m.next
  exact ⟨ρ', hplanned, hwithin⟩

/-- A decision rests on nodes that are there, -/
lemma Twin.decision_within {ρ : Renaming} (h : Twin ρ m m) :
    m.decision.Within m.planned.2.1.graph.size := by
  obtain ⟨ρ', -, hwithin⟩ := h.mirrored_planned
  exact hwithin

/-- and no node is there twice. -/
lemma Twin.consed_planned {ρ : Renaming} (h : Twin ρ m m) : m.planned.2.1.graph.Consed := by
  obtain ⟨ρ', hplanned, -⟩ := h.mirrored_planned
  exact hplanned.graph.consed

end Machine

end Lineage
