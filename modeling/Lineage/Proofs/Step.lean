import Lineage.Machine
import Mathlib.Tactic.Lemma

/-!
Steps of a machine, taken apart, and the states that it goes through.
-/

namespace Lineage.Machine

variable {ω : Type} {m : Machine ω}

def next (m : Machine ω) : Instruction := instructionAt m.program m.store.pcValue

lemma next_mem (m : Machine ω) : m.next ∈ m.program ∨ m.next = .unknown := by
  unfold next instructionAt
  split
  · exact .inr rfl
  · rw [List.getD_eq_getElem?_getD]
    cases hi : m.program[m.store.pcValue.toInt.toNat]? with
    | none => exact .inr rfl
    | some i => exact .inl (List.mem_of_getElem? hi)

variable [Observer ω]

/-- The observer and the store when the instruction is about to have its effect. -/
def told (m : Machine ω) : ω × Store :=
  Observer.before (Observer.decoded (Observer.fetched m.observer (m.store.operand Store.pc)) m.next)
    m.store m.next

lemma step_of_error {e : Fault} {s : Store} (h : m.next.execute m.told.2 = .error e s) :
    m.step = (.error e, { m with store := s, observer := m.told.1 }) := by
  simp only [next, told] at h
  simp only [step, next, told, h]

lemma step_of_ok {flow : Flow} {s : Store} (h : m.next.execute m.told.2 = .ok flow s) :
    m.step = (.ok (flow != .halt), { m with
      store := (Observer.after m.told.1 (advance s flow) (flow != .halt)).2
      observer := (Observer.after m.told.1 (advance s flow) (flow != .halt)).1
      steps := m.steps + 1 }) := by
  simp only [next, told] at h
  simp only [step, next, told, h]

/-- The machine after a number of steps, of which some may have failed. -/
def after (m : Machine ω) : Nat → Machine ω
  | 0 => m
  | n + 1 => (m.after n).step.2

lemma after_step (m : Machine ω) (n : Nat) : m.step.2.after n = m.after (n + 1) := by
  induction n with
  | zero => rfl
  | succ n ih =>
    show (m.step.2.after n).step.2 = (m.after (n + 1)).step.2
    rw [ih]

/-- The machine takes `k` steps that go on, and then one that halts. -/
structure HaltsAfter (m : Machine ω) (k : Nat) : Prop where
  goes : ∀ j < k, (m.after j).step.1 = .ok true
  halts : (m.after k).step.1 = .ok false

lemma HaltsAfter.running {j k : Nat} (h : m.HaltsAfter k) (hj : j ≤ k) :
    (m.after j).step.1 = .ok (decide (j < k)) := by
  rcases Nat.lt_or_eq_of_le hj with hlt | rfl
  · rw [h.goes j hlt, decide_eq_true hlt]
  · rw [h.halts, decide_eq_false (Nat.lt_irrefl j)]

/-- A run that comes to a halt has gone through steps that went on, and one that halted. -/
lemma steps_of_runToHalt {fuel : Nat} {m' : Machine ω}
    (h : m.runToHalt fuel = (some (.ok ()), m')) :
    ∃ k, m' = m.after (k + 1) ∧ m.HaltsAfter k := by
  induction fuel generalizing m with
  | zero => cases h
  | succ fuel ih =>
    unfold runToHalt at h
    rcases hstep : m.step with ⟨e | _ | _, m₁⟩
    · rw [hstep] at h
      cases h
    · rw [hstep] at h
      cases h
      refine ⟨0, ?_, fun j hj => absurd hj (Nat.not_lt_zero j), ?_⟩
      · rw [after, after, hstep]
      · rw [after, hstep]
    · rw [hstep] at h
      obtain ⟨k, hm', hgo, hhalt⟩ := ih h
      have hm₁ : m₁ = m.step.2 := by rw [hstep]
      rw [hm₁] at hm' hgo hhalt
      refine ⟨k + 1, by rw [hm', after_step], fun j hj => ?_, by rwa [← after_step]⟩
      cases j with
      | zero => rw [after, hstep]
      | succ j =>
        rw [← after_step]
        exact hgo j (Nat.lt_of_succ_lt_succ hj)

lemma haltsAfter_of_run {fuel n : Nat} {m' : Machine ω} (h : m.run fuel = (some (.ok n), m')) :
    ∃ k, m' = m.after (k + 1) ∧ m.HaltsAfter k := by
  unfold run at h
  rcases hr : m.runToHalt fuel with ⟨_ | e | _, m₁⟩
  · rw [hr] at h
    cases h
  · rw [hr] at h
    cases h
  · rw [hr] at h
    cases h
    exact steps_of_runToHalt hr

end Lineage.Machine
