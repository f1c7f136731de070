import Lineage.Proofs.Instruction.Consuming
import Lineage.Proofs.Transparency

/-!
Steps that fault.

An execution that faults has consumed the input that it read before the failure, and has done
nothing else, whatever the instruction and wherever it fails. So it is with a step of a machine
whose observer is discreet.
-/

namespace Lineage

/-- The observer only peeks before an instruction has its effect, and only binds nodes behind it. -/
structure Observer.Discreet (ω : Type) [Observer ω] : Prop where
  before : ∀ (o : ω) (s : Store) i, s.Peeked (Observer.before o s i).2
  after : ∀ (o : ω) (s : Store) running, s.Similar (Observer.after o s running).2 ∧
    (Observer.after o s running).2.reads = s.reads

namespace Observer.Discreet

variable {α β ω : Type}

lemma unit : Discreet Unit where
  before _ s _ := .refl s
  after _ s _ := ⟨.refl s, rfl⟩

lemma trace : Discreet Trace where
  before _ s _ := .refl s
  after _ s _ := ⟨.refl s, rfl⟩

lemma tracker : Discreet Tracker where
  before t s i := (Tracker.looks_plan i ({ t with pending := none }, s)).store
  after t s running := by
    refine ⟨Unobtrusive.tracker.after t s running, ?_⟩
    show (t.settle s).2.reads = s.reads
    unfold Tracker.settle
    split <;> rfl

lemma pair [Observer α] [Observer β] (ha : Discreet α) (hb : Discreet β) : Discreet (α × β) where
  before o s i := (ha.before o.1 s i).trans (hb.before o.2 _ i)
  after o s running :=
    ⟨(ha.after o.1 s running).1.trans (hb.after o.2 _ running).1,
      (hb.after o.2 _ running).2.trans (ha.after o.1 s running).2⟩

lemma unobtrusive [Observer ω] (h : Discreet ω) : Unobtrusive ω where
  before o s i := (h.before o s i).similar
  after o s running := (h.after o s running).1

end Observer.Discreet

/-- An execution that faults has read the operands before the failure, and done nothing else. -/
lemma Instruction.consumed_of_error {i : Instruction} {s t : Store} {f : Fault} (hl : s.Laid)
    (h : i.execute s = .error f t) : s.Consumed (i.readBefore f) t := by
  rw [i.execute_error_reads hl h]
  exact Store.consumed_readAll hl _

namespace Machine

variable {ω : Type} [Observer ω] {m : Machine ω}

/-- **Failures only consume**: an execution that faults leaves every operand as it was but the input
channels that it has read before the failure, interns nothing and emits nothing, whatever the
instruction. So does a step, which is not counted then, behind the peeks of its observer. -/
theorem failures_only_consume (hω : Observer.Discreet ω) (hl : m.store.Laid) :
    (∀ (i : Instruction) f t, i.execute m.store = .error f t →
        m.store.Consumed (i.readBefore f) t ∧ t.pcValue = m.store.pcValue) ∧
      ∀ f, m.step.1 = .error f →
        m.store.Peeked m.told.2 ∧ m.told.2.Consumed (m.next.readBefore f) m.step.2.store ∧
          m.step.2.store.pcValue = m.store.pcValue ∧ m.step.2.steps = m.steps ∧
          m.step.2.program = m.program := by
  refine ⟨fun i f t h => ?_, fun f h => ?_⟩
  · have hconsumed := i.consumed_of_error hl h
    exact ⟨hconsumed, hconsumed.pcValue hl⟩
  · have htold : m.store.Peeked m.told.2 := hω.before _ _ _
    have hl' := hl.steady htold.steady
    have hpc : m.told.2.pcValue = m.store.pcValue := by
      rw [Store.pcValue, htold.operand, Store.pcValue]
    cases hexec : m.next.execute m.told.2 with
    | ok flow t =>
      rw [step_of_ok hexec] at h
      cases h
    | error f' t =>
      rw [step_of_error hexec] at h ⊢
      cases h
      have hconsumed := m.next.consumed_of_error hl' hexec
      exact ⟨htold, hconsumed, (hconsumed.pcValue hl').trans hpc, rfl, rfl⟩

/-- An addition without a destination, which fails when it has consumed two values. -/
theorem failures_only_consume_unfilled :
    let i : Instruction := ⟨.binary .add, ⟨some ⟨1, "IN0"⟩, some ⟨1, "IN0"⟩, none⟩⟩
    let m : Machine Tracker :=
      { store :=
          { layout := { inputs := 1 }
            operands := #[{ kind := .register pcName }, { kind := .input 0, node := some 0 }]
            source := .queues [[7, 5]] }
        program := [i]
        observer := {} }
    (Observer.Discreet Tracker ∧ m.store.Laid) ∧
      m.step.1 = .error (.missingOperand i .dst) ∧
      m.told.2.Consumed [1, 1] m.step.2.store ∧ m.step.2.steps = 0 := by
  intro i m
  have hl : m.store.Laid := ⟨⟨[], rfl⟩, by decide⟩
  have hfault : m.step.1 = .error (.missingOperand i .dst) := by decide +kernel
  obtain ⟨-, hconsumed, -, hsteps, -⟩ := (failures_only_consume .tracker hl).2 _ hfault
  exact ⟨⟨.tracker, hl⟩, hfault, hconsumed, hsteps⟩

end Machine

end Lineage
