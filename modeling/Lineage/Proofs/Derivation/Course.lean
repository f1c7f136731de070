import Lineage.Proofs.Derivation.Planning
import Lineage.Proofs.Instruction.Binding
import Lineage.Proofs.Step

/-!
The course of a step.

A step of a tracked machine is planned on the store as it is, it reads, it has its effect, and then
what was planned is settled. `Course` says so of every step, whatever the input source is. No step
changes the program, the input source, the layout or the kinds of the operands.
-/

namespace Lineage

variable {m m' : Machine Tracker} {r : Except Fault Bool} {s : Store}

namespace Machine

/-- The decision on the next step, with the tracker and the store behind the plan. -/
def planned (m : Machine Tracker) : Decision × Tracker × Store :=
  Tracker.plan m.next ({ m.observer with pending := none }, m.store)

def decision (m : Machine Tracker) : Decision := m.planned.1

/-- The tracker that has taken the decision on the next step. -/
def adopted (m : Machine Tracker) : Tracker := m.planned.2.1.adopt m.planned.2.2 m.decision

lemma planned_looked (m : Machine Tracker) :
    Tracker.Looked ({ m.observer with pending := none }, m.store) m.planned.2 :=
  Tracker.looks_plan m.next _

lemma told_eq (m : Machine Tracker) : m.told = (m.adopted, m.planned.2.2) := rfl

def Branches (m : Machine Tracker) : Prop := ∃ taken pc x, m.decision = .branch taken pc x

/-- The reading of an operand that a decision on the next instruction begins with. -/
def found (m : Machine Tracker) (id : OperandId) : Reading :=
  (Tracker.read id ({ m.observer with pending := none }, m.store)).1

/-- What a step goes through. -/
inductive Course (m : Machine Tracker) : Except Fault Bool → Machine Tracker → Prop
  /-- Nothing but reading has happened behind the plan. -/
  | fault {f : Fault} {u : Store} (steady : m.planned.2.2.Steady u) :
      Course m (.error f) { m with store := u, observer := m.adopted }
  | done {e : Effect} {u v : Store} {flow : Flow} (reads : m.next.Reads m.planned.2.2 e u)
      (performs : Instruction.perform e u = .ok flow v) :
      Course m (.ok (e ≠ .halt)) { m with
        store := (m.adopted.settle (advance v flow)).2
        observer := (m.adopted.settle (advance v flow)).1
        steps := m.steps + 1 }

lemma step_course (m : Machine Tracker) : m.Course m.step.1 m.step.2 := by
  cases heff : m.next.effect m.planned.2.2 with
  | error f u =>
    have hexec : m.next.execute m.told.2 = .error f u := by
      simp only [told_eq, Instruction.execute, bind, EStateM.bind, heff]
    rw [step_of_error hexec]
    exact .fault ((Instruction.effect_quiet m.next).error heff)
  | ok e u =>
    have hreads := Instruction.reads_of_effect heff
    cases hperf : Instruction.perform e u with
    | error f v =>
      have hexec : m.next.execute m.told.2 = .error f v := by
        simp only [told_eq, Instruction.execute, bind, EStateM.bind, heff, hperf]
      rw [step_of_error hexec, Instruction.perform_error hperf]
      exact .fault hreads.steady
    | ok flow v =>
      have hexec : m.next.execute m.told.2 = .ok flow v := by
        simp only [told_eq, Instruction.execute, bind, EStateM.bind, heff, hperf]
      obtain ⟨-, hhalt⟩ := Instruction.follows_of_perform hperf
      have hrunning : (flow != .halt) = decide (e ≠ .halt) := by
        rw [bne, beq_eq_decide, decide_not, decide_eq_decide.2 hhalt]
      rw [step_of_ok hexec, hrunning]
      exact .done hreads hperf

lemma done_of_ok {running : Bool} (h : m.step.1 = .ok running) :
    ∃ e u v flow, m.next.Reads m.planned.2.2 e u ∧ Instruction.perform e u = .ok flow v ∧
      m.step.2 = { m with
        store := (m.adopted.settle (advance v flow)).2
        observer := (m.adopted.settle (advance v flow)).1
        steps := m.steps + 1 } := by
  have hcourse := m.step_course
  generalize m.step.1 = r at hcourse h
  generalize m.step.2 = m' at hcourse
  cases hcourse with
  | fault => cases h
  | done hreads hperf => exact ⟨_, _, _, _, hreads, hperf, rfl⟩

end Machine

/-! ### What no step changes -/

/-- The stores have the same input source and the same operands, apart from what these hold. -/
structure Store.SameFrame (s t : Store) : Prop where
  layout : t.layout = s.layout
  source : t.source = s.source
  size : t.operands.size = s.operands.size
  kind : ∀ id, (t.operand id).kind = (s.operand id).kind

namespace Store.SameFrame

variable {t u : Store}

lemma refl (s : Store) : s.SameFrame s := ⟨rfl, rfl, rfl, fun _ => rfl⟩

lemma trans (h : s.SameFrame t) (h' : t.SameFrame u) : s.SameFrame u where
  layout := h'.layout.trans h.layout
  source := h'.source.trans h.source
  size := h'.size.trans h.size
  kind id := (h'.kind id).trans (h.kind id)

lemma name (h : s.SameFrame t) (id : OperandId) : (t.operand id).name = (s.operand id).name := by
  rw [Operand.name, h.kind, Operand.name]

lemma isInput (h : s.SameFrame t) {id : OperandId} : t.IsInput id ↔ s.IsInput id := by
  simp only [IsInput, h.kind]

lemma isOutput (h : s.SameFrame t) {id : OperandId} : t.IsOutput id ↔ s.IsOutput id := by
  simp only [IsOutput, h.kind]

lemma isStorage (h : s.SameFrame t) {id : OperandId} : t.IsStorage id ↔ s.IsStorage id := by
  simp only [IsStorage, h.kind, h.size]

lemma laid (h : s.SameFrame t) (hl : s.Laid) : t.Laid := hl.congr h.layout h.size h.kind

end Store.SameFrame

lemma Store.Steady.sameFrame {t : Store} (h : s.Steady t) : s.SameFrame t :=
  ⟨h.layout, h.source, h.size, h.kind⟩

lemma Store.Peeked.sameFrame {t : Store} (h : s.Peeked t) : s.SameFrame t := h.steady.sameFrame

lemma Store.Similar.sameFrame {t : Store} (h : s.Similar t) : s.SameFrame t :=
  ⟨h.layout, h.source, h.size, h.kind⟩

lemma Store.Follows.sameFrame {t : Store} {e : Effect} (h : s.Follows e t) : s.SameFrame t :=
  ⟨h.layout, h.source, h.size, h.kind⟩

lemma Store.write_sameFrame {t : Store} {id : OperandId} {v : Value} (h : s.write id v = .ok t) :
    s.SameFrame t := by
  obtain ⟨-, hlayout, hsource, -, hsize, w, hw⟩ := s.write_ok h
  refine ⟨hlayout, hsource, hsize, fun j => ?_⟩
  rw [hw]
  split <;> rfl

lemma Store.bind_sameFrame (s : Store) (id : OperandId) (n : NodeId) : s.SameFrame (s.bind id n) :=
  ⟨rfl, rfl, size_modify .., s.kind_bind id n⟩

lemma Tracker.settle_sameFrame (t : Tracker) (s : Store) : s.SameFrame (t.settle s).2 := by
  unfold settle
  split
  · exact .refl s
  · exact s.bind_sameFrame ..
  · exact s.bind_sameFrame ..

lemma Tracker.reads_settle (t : Tracker) (s : Store) : (t.settle s).2.reads = s.reads := by
  unfold settle
  split <;> rfl

lemma Tracker.context_settle (t : Tracker) (s : Store) : (t.settle s).1.context = t.context := by
  unfold settle
  split <;> rfl

lemma Tracker.marked_settle (t : Tracker) (s : Store) : (t.settle s).1.marked = t.marked := by
  unfold settle
  split <;> rfl

lemma Tracker.settle_extends (t : Tracker) (s : Store) :
    t.graph.Extends (t.settle s).1.graph := by
  unfold settle
  split
  · exact .refl _
  · exact .refl _
  · exact Graph.derive_extends ..

namespace Machine

lemma Course.sameFrame (h : m.Course r m') : m.store.SameFrame m'.store := by
  have hlooked := m.planned_looked.store.sameFrame
  cases h with
  | fault hs => exact hlooked.trans hs.sameFrame
  | done hr hp =>
    have hf := (Instruction.follows_of_perform hp).1
    exact ((hlooked.trans hr.steady.sameFrame).trans hf.sameFrame).trans
      (Tracker.settle_sameFrame ..)

lemma Course.program (h : m.Course r m') : m'.program = m.program := by
  cases h <;> rfl

/-- A program that is decoded interns constants at most, and leaves the observer alone. -/
lemma interned_of_loadText {program : String} {t : Tracker}
    (h : loadText { store := s, observer := t } program = (.ok (), m)) :
    s.Interned m.store ∧ m.observer = t := by
  unfold loadText at h
  cases hd : decode program s with
  | error e t => rw [hd] at h; cases h
  | ok is t =>
    rw [hd] at h
    cases h
    exact ⟨(keeps_decode .interned program).ok hd, rfl⟩

lemma sameFrame_after (m : Machine Tracker) (n : Nat) :
    m.store.SameFrame (m.after n).store := by
  induction n with
  | zero => exact .refl _
  | succ n ih => exact ih.trans (m.after n).step_course.sameFrame

lemma program_after (m : Machine Tracker) (n : Nat) : (m.after n).program = m.program := by
  induction n with
  | zero => rfl
  | succ n ih => exact (m.after n).step_course.program.trans ih

end Machine

end Lineage
