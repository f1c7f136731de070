import Lineage.Proofs.Logging

/-!
Runs taken in parts, and machines that have halted.

A bounded run that stops at its limit can be taken up again, and one that stops before it is the
whole run, so a run to the halt is the bounded run that is just long enough. A step that halts finds
nothing to do and drops what was pending. The next one finds the machine as this one has left it,
halts again, and gives its observer nothing to do but to log it.
-/

namespace Lineage

variable {ω α β : Type} {s : Store} {i : Instruction}

/-! ### Observers at a halt -/

namespace Observer

/-- Observers that may keep a log of steps. -/
class Logging (ω : Type) where
  /-- Adds an item to every log that the observer keeps. -/
  log : ω → TraceItem → ω := fun o _ => o

instance : Logging Unit where

instance : Logging Tracker where

instance : Logging Trace where
  log t item := { t with items := t.items.push item }

instance [Logging α] [Logging β] : Logging (α × β) where
  log o item := (Logging.log o.1 item, Logging.log o.2 item)

/-- The observers there are, and any of them together. -/
inductive Provided : (ω : Type) → [Observer ω] → [Logging ω] → Prop
  | unit : Provided Unit
  | trace : Provided Trace
  | tracker : Provided Tracker
  | pair {α β : Type} [Observer α] [Logging α] [Observer β] [Logging β] (first : Provided α)
      (second : Provided β) : Provided (α × β)

section Halted

variable [Observer ω]

def informed (o : ω) (s : Store) (i : Instruction) : ω × Store :=
  Observer.before (Observer.decoded (Observer.fetched o (s.operand Store.pc)) i) s i

/-- The observer behind a step that halts on a store. -/
def halted (o : ω) (s : Store) (i : Instruction) : ω :=
  (Observer.after (informed o s i).1 s false).1

/-- What a log has of a step that halts. -/
def haltItem (s : Store) (i : Instruction) : TraceItem where
  pc := s.pcValue
  instruction := i.text
  before := s.snapshot
  after := s.snapshot

/-- At a halt the observer leaves the store alone, and it has nothing to do at the second one but to
log it. -/
structure Rests (ω : Type) [Observer ω] [Logging ω] : Prop where
  before : ∀ (o : ω) s {i : Instruction}, i.opcode = .unkn → (informed o s i).2 = s
  after : ∀ (o : ω) s {i : Instruction}, i.opcode = .unkn →
    (Observer.after (informed o s i).1 s false).2 = s
  again : ∀ (o : ω) s {i : Instruction}, i.opcode = .unkn →
    halted (halted o s i) s i = Logging.log (halted o s i) (haltItem s i)

end Halted

namespace Rests

lemma unit : Rests Unit where
  before _ _ _ _ := rfl
  after _ _ _ _ := rfl
  again _ _ _ _ := rfl

lemma trace : Rests Trace where
  before _ _ _ _ := rfl
  after _ _ _ _ := rfl
  again _ _ _ _ := rfl

/-- A tracker has no plans for an unknown operation, and forgets older ones. -/
lemma informed_tracker (t : Tracker) (s : Store) (h : i.opcode = .unkn) :
    informed t s i = ({ t with pending := none }, s) := by
  show t.anticipate s i = _
  rw [Tracker.anticipate, Tracker.plan_idle (.inr h)]
  rfl

lemma tracker : Rests Tracker where
  before t s i h := by rw [informed_tracker t s h]
  after t s i h := by rw [informed_tracker t s h]; rfl
  again t s i h := by
    have hhalted : ∀ t : Tracker, halted t s i = { t with pending := none } := by
      intro t
      rw [halted, informed_tracker t s h]
      rfl
    rw [hhalted, hhalted]
    rfl

lemma pair [Observer α] [Logging α] [Observer β] [Logging β] (ha : Rests α) (hb : Rests β) :
    Rests (α × β) := by
  -- at a halt neither observer changes the store, so both are told of the same
  have hinformed : ∀ (o : α × β) s {i : Instruction}, i.opcode = .unkn →
      informed o s i = (((informed o.1 s i).1, (informed o.2 s i).1), s) := by
    intro o s i h
    have hthreaded : informed o s i =
        (((informed o.1 s i).1, (Observer.before (Observer.decoded (Observer.fetched o.2
          (s.operand Store.pc)) i) (informed o.1 s i).2 i).1),
          (Observer.before (Observer.decoded (Observer.fetched o.2
            (s.operand Store.pc)) i) (informed o.1 s i).2 i).2) := rfl
    rw [hthreaded, ha.before o.1 s h]
    exact congrArg _ (hb.before o.2 s h)
  have hafter : ∀ (o : α × β) s {i : Instruction}, i.opcode = .unkn →
      Observer.after (informed o s i).1 s false = ((halted o.1 s i, halted o.2 s i), s) := by
    intro o s i h
    have hthreaded : Observer.after ((informed o.1 s i).1, (informed o.2 s i).1) s false =
        ((halted o.1 s i, (Observer.after (informed o.2 s i).1
            (Observer.after (informed o.1 s i).1 s false).2 false).1),
          (Observer.after (informed o.2 s i).1
            (Observer.after (informed o.1 s i).1 s false).2 false).2) := rfl
    rw [hinformed o s h, hthreaded, ha.after o.1 s h]
    exact congrArg _ (hb.after o.2 s h)
  have hhalted : ∀ (o : α × β) s {i : Instruction}, i.opcode = .unkn →
      halted o s i = (halted o.1 s i, halted o.2 s i) := by
    intro o s i h
    rw [halted, hafter o s h]
  refine ⟨fun o s i h => by rw [hinformed o s h], fun o s i h => by rw [hafter o s h],
    fun o s i h => ?_⟩
  rw [hhalted _ s h, hhalted o s h, ha.again o.1 s h, hb.again o.2 s h]
  rfl

end Rests

lemma Provided.rests [Observer ω] [Logging ω] (h : Provided ω) : Rests ω := by
  induction h with
  | unit => exact .unit
  | trace => exact .trace
  | tracker => exact .tracker
  | pair _ _ iha ihb => exact .pair iha ihb

end Observer

namespace Machine

variable [Observer ω] {m m' : Machine ω} {fuel k : Nat}

/-! ### Runs in parts -/

/-- A longer run takes up where the shorter one has stopped at its limit, and is the shorter one
otherwise. -/
lemma runFor_add (m : Machine ω) (k n : Nat) : m.runFor (k + n) =
    match m.runFor k with
    | (.ok true, m') => m'.runFor n
    | r => r := by
  induction k generalizing m with
  | zero => rw [Nat.zero_add, runFor]
  | succ k ih =>
    rw [Nat.add_right_comm, runFor, runFor]
    rcases m.step with ⟨e | _ | _, m₁⟩
    · rfl
    · rfl
    · exact ih m₁

lemma runFor_add_of_running (h : (m.runFor k).1 = .ok true) (n : Nat) :
    m.runFor (k + n) = (m.runFor k).2.runFor n := by
  rw [runFor_add]
  rcases hr : m.runFor k with ⟨e | _ | _, m₁⟩
  · rw [hr] at h
    cases h
  · rw [hr] at h
    cases h
  · rfl

lemma runFor_add_of_stopped (h : (m.runFor k).1 ≠ .ok true) (n : Nat) :
    m.runFor (k + n) = m.runFor k := by
  rw [runFor_add]
  rcases hr : m.runFor k with ⟨e | _ | _, m₁⟩
  · rfl
  · rfl
  · rw [hr] at h
    exact absurd rfl h

lemma runFor_one (m : Machine ω) : m.runFor 1 = m.step := by
  rw [runFor]
  rcases m.step with ⟨e | _ | _, m₁⟩ <;> rfl

lemma steps_step {running : Bool} (h : m.step.1 = .ok running) :
    m.step.2.steps = m.steps + 1 := by
  cases hexec : m.next.execute m.told.2 with
  | error e u =>
    rw [step_of_error hexec] at h
    cases h
  | ok flow u => rw [step_of_ok hexec]

lemma steps_runFor (hgoes : ∀ j < k, (m.runFor j).1 = .ok true) {running : Bool}
    (h : (m.runFor k).1 = .ok running) : (m.runFor k).2.steps = m.steps + k := by
  induction k generalizing running with
  | zero => rfl
  | succ k ih =>
    have hk := hgoes k (Nat.lt_succ_self k)
    rw [runFor_add_of_running hk, runFor_one] at h ⊢
    rw [steps_step h, ih (fun j hj => hgoes j (Nat.lt_succ_of_lt hj)) hk, Nat.add_assoc]

/-- A run to the halt is the shortest bounded run that does not stop at its limit. -/
lemma runToHalt_iff {r : Except Fault Unit} : m.runToHalt fuel = (some r, m') ↔
    ∃ k ≤ fuel, m.runFor k = (r.map fun _ => false, m') ∧ ∀ j < k, (m.runFor j).1 = .ok true := by
  have hzero : ∀ {m : Machine ω}, m.runFor 0 ≠ (r.map fun _ => false, m') := by
    intro m h
    cases r <;> cases h
  induction fuel generalizing m with
  | zero =>
    refine iff_of_false nofun ?_
    rintro ⟨k, hk, hrun, -⟩
    rw [Nat.le_zero.1 hk] at hrun
    exact hzero hrun
  | succ fuel ih =>
    -- a run that does not go on behind its first step is one of length 1
    have hfirst : ∀ {x : Except Fault Bool × Machine ω}, m.step = x → x.1 ≠ .ok true →
        ((∃ k ≤ fuel + 1, m.runFor k = (r.map fun _ => false, m') ∧
          ∀ j < k, (m.runFor j).1 = .ok true) ↔ x = (r.map fun _ => false, m')) := by
      intro x hx hstop
      have hone : m.runFor 1 = x := m.runFor_one.trans hx
      constructor
      · rintro ⟨k, -, hrun, -⟩
        cases k with
        | zero => exact absurd hrun hzero
        | succ k =>
          rw [Nat.add_comm, runFor_add_of_stopped (by rwa [hone]), hone] at hrun
          exact hrun
      · intro hrun
        refine ⟨1, Nat.succ_le_succ (Nat.zero_le fuel), hone.trans hrun, fun j hj => ?_⟩
        rw [Nat.lt_one_iff.1 hj]
        rfl
    rw [runToHalt]
    rcases hstep : m.step with ⟨e | _ | _, m₁⟩
    · rw [hfirst hstep nofun]
      cases r <;> simp [Except.map]
    · rw [hfirst hstep nofun]
      cases r <;> simp [Except.map]
    · have hone : (m.runFor 1).1 = .ok true := by rw [runFor_one, hstep]
      have hsucc : ∀ k, m.runFor (k + 1) = m₁.runFor k := fun k => by
        rw [Nat.add_comm, runFor_add_of_running hone, runFor_one, hstep]
      refine (ih (m := m₁)).trans ⟨?_, ?_⟩
      · rintro ⟨k, hk, hrun, hgoes⟩
        refine ⟨k + 1, Nat.succ_le_succ hk, (hsucc k).trans hrun, fun j hj => ?_⟩
        cases j with
        | zero => rfl
        | succ j =>
          rw [hsucc]
          exact hgoes j (Nat.lt_of_succ_lt_succ hj)
      · rintro ⟨k, hk, hrun, hgoes⟩
        cases k with
        | zero => exact absurd hrun hzero
        | succ k =>
          refine ⟨k, Nat.le_of_succ_le_succ hk, (hsucc k).symm.trans hrun, fun j hj => ?_⟩
          rw [← hsucc]
          exact hgoes (j + 1) (Nat.succ_lt_succ hj)

lemma run_eq_ok_iff : m.run fuel = (some (.ok k), m') ↔
    k ≤ fuel ∧ m.runFor k = (.ok false, m') ∧ ∀ j < k, (m.runFor j).1 = .ok true := by
  have hcount : ∀ {k}, m.runFor k = (.ok false, m') → (∀ j < k, (m.runFor j).1 = .ok true) →
      m'.steps - m.steps = k := by
    intro k hrun hgoes
    have hsteps := steps_runFor hgoes (congrArg Prod.fst hrun)
    rw [hrun] at hsteps
    rw [hsteps, Nat.add_sub_cancel_left]
  rw [run]
  constructor
  · intro h
    rcases hr : m.runToHalt fuel with ⟨_ | e | _, m₁⟩
    · rw [hr] at h
      cases h
    · rw [hr] at h
      cases h
    · rw [hr] at h
      cases h
      obtain ⟨k, hk, hrun, hgoes⟩ := runToHalt_iff.1 hr
      rw [hcount hrun hgoes]
      exact ⟨hk, hrun, hgoes⟩
  · rintro ⟨hk, hrun, hgoes⟩
    have hr : m.runToHalt fuel = (some (.ok ()), m') := runToHalt_iff.2 ⟨k, hk, hrun, hgoes⟩
    rw [hr]
    exact Prod.ext (congrArg (fun n => some (Except.ok n)) (hcount hrun hgoes)) rfl

/-! ### At a halt -/

lemma next_of_halt (h : m.step.1 = .ok false) : m.next.opcode = .unkn := by
  cases hexec : m.next.execute m.told.2 with
  | error e u =>
    rw [step_of_error hexec] at h
    cases h
  | ok flow u =>
    rw [step_of_ok hexec] at h
    rw [← Instruction.halt_iff_of_execute hexec]
    simpa using h

variable [Observer.Logging ω]

/-- A step that halts changes nothing but the observer and the count of steps. -/
lemma step_of_unkn (hω : Observer.Rests ω) (hop : m.next.opcode = .unkn) :
    m.step = (.ok false, { m with
      observer := Observer.halted m.observer m.store m.next, steps := m.steps + 1 }) := by
  have htold : m.told = ((Observer.informed m.observer m.store m.next).1, m.store) :=
    Prod.ext rfl (hω.before m.observer m.store hop)
  have hafter : Observer.after (Observer.informed m.observer m.store m.next).1 m.store false =
      (Observer.halted m.observer m.store m.next, m.store) :=
    Prod.ext rfl (hω.after m.observer m.store hop)
  have hrunning : (Flow.halt != Flow.halt) = false := rfl
  rw [step_of_ok (Instruction.execute_unkn hop _), htold, advance, hrunning, hafter]

/-- The machine has halted, and its observer has been told so. -/
structure AtRest (m : Machine ω) : Prop where
  opcode : m.next.opcode = .unkn
  observer : ∃ o, m.observer = Observer.halted o m.store m.next

def rested (m : Machine ω) (n : Nat) : Machine ω :=
  { m with
    observer := (Observer.Logging.log · (Observer.haltItem m.store m.next))^[n] m.observer
    steps := m.steps + n }

/-- A machine comes to rest with the first step that halts, -/
lemma atRest_of_halt (hω : Observer.Rests ω) (h : m.step.1 = .ok false) : m.step.2.AtRest := by
  have hop := next_of_halt h
  rw [step_of_unkn hω hop]
  exact ⟨hop, m.observer, rfl⟩

/-- and stays there. -/
lemma AtRest.step (h : m.AtRest) (hω : Observer.Rests ω) :
    m.step = (.ok false, m.rested 1) ∧ m.step.2.AtRest := by
  have hstep := step_of_unkn hω h.opcode
  obtain ⟨o, ho⟩ := h.observer
  refine ⟨?_, atRest_of_halt hω (by rw [hstep])⟩
  have hagain := hω.again o m.store h.opcode
  rw [← ho] at hagain
  rw [hstep, hagain]
  rfl

omit [Observer ω] in
lemma rested_rested (m : Machine ω) (k n : Nat) : (m.rested k).rested n = m.rested (n + k) := by
  simp only [rested, Function.iterate_add_apply, Nat.add_assoc, Nat.add_comm k n]
  rfl

lemma AtRest.after (h : m.AtRest) (hω : Observer.Rests ω) (n : Nat) :
    (m.after n).AtRest ∧ m.after n = m.rested n := by
  induction n with
  | zero => exact ⟨h, rfl⟩
  | succ n ih =>
    obtain ⟨hrest, heq⟩ := ih
    obtain ⟨hstep, hrest'⟩ := hrest.step hω
    refine ⟨hrest', ?_⟩
    rw [Machine.after, hstep, heq, rested_rested, Nat.add_comm]

/-- **Bounded runs compose, and a halt is final**: a run of `k + n` steps is one of `k` that is taken
up again for `n` more, or the run of `k` steps itself when that has come to a halt or a fault. A run
without a limit takes `k` steps if and only if the run of `k` steps halts and the shorter ones go
on, and leaves the same machine. A step that halts leaves the store alone. After it every step halts
and changes nothing but the count of steps and the logs, which get the same item each time. -/
theorem runs_compose (hω : Observer.Provided ω) (m : Machine ω) :
    (∀ k n, ((m.runFor k).1 = .ok true → m.runFor (k + n) = (m.runFor k).2.runFor n) ∧
      ((m.runFor k).1 ≠ .ok true → m.runFor (k + n) = m.runFor k)) ∧
    (∀ fuel k m', m.run fuel = (some (.ok k), m') ↔
      k ≤ fuel ∧ m.runFor k = (.ok false, m') ∧ ∀ j < k, (m.runFor j).1 = .ok true) ∧
    (m.step.1 = .ok false → m.step.2.store = m.store ∧ ∀ n,
      (m.step.2.after n).step.1 = .ok false ∧ m.step.2.after n = m.step.2.rested n) := by
  have hrests := hω.rests
  refine ⟨fun k n => ⟨fun h => runFor_add_of_running h n, fun h => runFor_add_of_stopped h n⟩,
    fun fuel k m' => run_eq_ok_iff, fun h => ⟨?_, fun n => ?_⟩⟩
  · rw [step_of_unkn hrests (next_of_halt h)]
  · obtain ⟨hrest, heq⟩ := (atRest_of_halt hrests h).after hrests n
    obtain ⟨hstep, -⟩ := hrest.step hrests
    exact ⟨by rw [hstep], heq⟩

/-- A loop that goes round twice, under a trace and a tracker. -/
theorem runs_compose_countdown :
    let s : Store :=
      { layout := { registers := ["A"] }
        operands := #[{ kind := .register pcName }, { kind := .register "A" }]
        source := .queues [] }
    let m := (({ store := s, observer := ({}, {}) } : Machine (Trace × Tracker)).loadText
      "STR %2, , A\nSUB A, %1, A\nJCC A, , %1").2
    let halting := (m.runFor 5).2
    ((m.runFor 2).1 = .ok true ∧ m.runFor 5 = (m.runFor 2).2.runFor 3) ∧
      ((m.runFor 6).1 = .ok false ∧ m.runFor 9 = m.runFor 6) ∧
      m.run 7 = (some (.ok 6), (m.runFor 6).2) ∧
      halting.step.1 = .ok false ∧ halting.step.2.after 3 = halting.step.2.rested 3 := by
  intro s m halting
  have hω : Observer.Provided (Trace × Tracker) := .pair .trace .tracker
  have hgoes : ∀ j < 6, (m.runFor j).1 = .ok true := by decide +kernel
  have hhalts : (m.runFor 6).1 = .ok false := by decide +kernel
  have hstep : halting.step.1 = .ok false := by decide +kernel
  obtain ⟨hadd, hrun, -⟩ := runs_compose hω m
  refine ⟨⟨hgoes 2 (by decide), (hadd 2 3).1 (hgoes 2 (by decide))⟩,
    ⟨hhalts, (hadd 6 3).2 (by rw [hhalts]; nofun)⟩,
    (hrun 7 6 _).2 ⟨by decide, Prod.ext hhalts rfl, hgoes⟩, hstep, ?_⟩
  exact (((runs_compose hω halting).2.2 hstep).2 3).2

end Machine

end Lineage
