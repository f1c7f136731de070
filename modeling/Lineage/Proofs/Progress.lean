import Lineage.Proofs.Derivation.Ranging
import Lineage.Proofs.Instruction.Faults
import Lineage.Proofs.Transparency

/-!
Decoded programs go wrong in two ways only.

A step of a decoded program faults if it divides by zero, or takes an address outside the memory
from what it reads, and in no other way. That is so without an observer and with one that is
unobtrusive, for every input source.
-/

namespace Lineage

variable {ω : Type} [Observer ω] {m : Machine ω} {s : Store} {f : Fault}

namespace Machine

/-- A step in which nothing but the instruction works on the values changes neither the program nor
the operands that there are. -/
lemma sameFrame_step (hω : Observer.Unobtrusive ω) (m : Machine ω) :
    m.store.SameFrame m.step.2.store ∧ m.step.2.program = m.program := by
  have htold : m.store.SameFrame m.told.2 := (hω.before _ _ _).sameFrame
  cases hexec : m.next.execute m.told.2 with
  | error f u =>
    rw [step_of_error hexec]
    exact ⟨htold.trans (Instruction.steady_of_execute_error hexec).sameFrame, rfl⟩
  | ok flow u =>
    obtain ⟨e, v, hreads, hfollows⟩ := Instruction.follows_of_execute hexec
    rw [step_of_ok hexec]
    refine ⟨?_, rfl⟩
    exact ((htold.trans hreads.steady.sameFrame).trans hfollows.sameFrame).trans
      (hω.after _ _ _).sameFrame

namespace Decoded

lemma step_error_iff (h : m.Decoded) (hω : Observer.Unobtrusive ω) :
    m.step.1 = .error f ↔ m.next.Fails m.told.2 f := by
  have hframe : m.store.SameFrame m.told.2 := (hω.before _ _ _).sameFrame
  rw [← Instruction.execute_error_iff (hframe.laid h.laid) (h.next.congr hframe.size hframe.kind)]
  cases hexec : m.next.execute m.told.2 with
  | error f' u => simp [step_of_error hexec]
  | ok flow u => simp [step_of_ok hexec]

lemma step (h : m.Decoded) (hω : Observer.Unobtrusive ω) : m.step.2.Decoded := by
  obtain ⟨hframe, hprogram⟩ := sameFrame_step hω m
  exact h.sameFrame hframe hprogram

lemma after (h : m.Decoded) (hω : Observer.Unobtrusive ω) (n : Nat) : (m.after n).Decoded := by
  induction n with
  | zero => exact h
  | succ n ih => exact ih.step hω

end Decoded

/-- **Decoded programs go wrong in two ways only**: without an observer and with a tracker, from any
operand values, a step faults exactly if it divides by zero, or if its address is outside the
memory. Every operand and every node that a step looks up is there. -/
theorem steps_fault_iff {program : String} {m : Machine Unit} {m' : Machine Tracker} (hl : s.Laid)
    (hu : s.Unbound) (hload : loadText { store := s, observer := () } program = (.ok (), m))
    (hload' : loadText { store := s, observer := {} } program = (.ok (), m')) (n : Nat) :
    let plain := m.after n
    let tracked := m'.after n
    ((∀ f, plain.step.1 = .error f ↔ plain.next.Fails plain.store f) ∧
        ∀ id, plain.next.Reaches plain.store id → id < plain.store.operands.size) ∧
      ((∀ f, tracked.step.1 = .error f ↔ tracked.next.Fails tracked.told.2 f) ∧
        tracked.store.Peeked tracked.told.2 ∧
        ∀ id, tracked.next.Reaches tracked.store id → id < tracked.store.operands.size) ∧
      tracked.observer.Ranged tracked.store ∧ tracked.adopted.Ranged tracked.told.2 ∧
      (∀ id ∈ tracked.decision.marks, id < tracked.store.operands.size) ∧
      tracked.decision.Within tracked.adopted.graph.size := by
  intro plain tracked
  have hplain : plain.Decoded := (decoded_of_loadText hl hload).after .unit n
  have hplaced : tracked.Placed := (placed_of_loadText hl hload').after n
  obtain ⟨ρ, htwin⟩ := twin_after hu hload' n
  have hgrows := Tracker.graph_adopt_grows tracked.planned.2.1 tracked.planned.2.2 tracked.decision
  refine ⟨⟨fun f => hplain.step_error_iff .unit, fun id => hplain.next.reaches_lt hplain.laid⟩,
    ⟨fun f => hplaced.step_error_iff .tracker, tracked.planned_looked.store,
      fun id => hplaced.next.reaches_lt hplaced.laid⟩,
    hplaced.ranged htwin, hplaced.ranged_adopted htwin, fun id => hplaced.marks_lt,
    fun r hr => hgrows.lt (htwin.decision_within r hr)⟩

/-- The second step takes the address 5 from an input channel, and there is one cell. -/
theorem steps_fault_iff_load :
    let s : Store :=
      { layout := { registers := ["A"], memorySize := 1, inputs := 1 }
        operands := #[{ kind := .register pcName }, { kind := .register "A" },
          { kind := .memory 0 }, { kind := .input 0 }]
        source := .queues [[5]] }
    let program := "STR %7, , [0]\nLDM IN0, , A"
    let m := (loadText { store := s, observer := () } program).2
    let m' := (loadText { store := s, observer := ({} : Tracker) } program).2
    (s.Laid ∧ s.Unbound ∧ loadText { store := s, observer := () } program = (.ok (), m) ∧
        loadText { store := s, observer := {} } program = (.ok (), m')) ∧
      (m.after 1).step.1 = .error (.access (.memoryOutOfRange 5 1)) ∧
      (m'.after 1).step.1 = .error (.access (.memoryOutOfRange 5 1)) := by
  intro s program m m'
  have hbuild :
      ({ registers := ["A"], memorySize := 1, inputs := 1, source := .queues [[5]] } :
        Config).build = .ok s := rfl
  obtain ⟨hl, hu⟩ := Config.laid_of_build hbuild
  have hload : loadText { store := s, observer := () } program = (.ok (), m) :=
    Prod.ext (by decide +kernel) rfl
  have hload' : loadText { store := s, observer := {} } program = (.ok (), m') :=
    Prod.ext (by decide +kernel) rfl
  -- what the instruction reads, with and without a tracker
  have hfails : (m.after 1).next.Fails (m.after 1).store (.access (.memoryOutOfRange 5 1)) := by
    have hv : ((m.after 1).store.read 3).1 = 5 := by decide +kernel
    have hsize : (m.after 1).store.layout.memorySize = 1 := by decide +kernel
    have h := Instruction.Fails.load (i := (m.after 1).next) (s := (m.after 1).store) (a := 3)
      (by decide +kernel) (by decide +kernel) (by rw [hv]; decide +kernel)
    rwa [hv, hsize] at h
  have hfails' : (m'.after 1).next.Fails (m'.after 1).told.2
      (.access (.memoryOutOfRange 5 1)) := by
    have hv : ((m'.after 1).told.2.read 3).1 = 5 := by decide +kernel
    have hsize : (m'.after 1).told.2.layout.memorySize = 1 := by decide +kernel
    have h := Instruction.Fails.load (i := (m'.after 1).next) (s := (m'.after 1).told.2) (a := 3)
      (by decide +kernel) (by decide +kernel) (by rw [hv]; decide +kernel)
    rwa [hv, hsize] at h
  have h := steps_fault_iff hl hu hload hload' 1
  exact ⟨⟨hl, hu, hload, hload'⟩, (h.1.1 _).2 hfails, (h.2.1.1 _).2 hfails'⟩

end Machine

end Lineage
