import Lineage.Proofs.Instruction.Binding
import Lineage.Proofs.Step

/-!
Machines under different observers.

A session is a sequence of calls of a machine. If two observers keep stores related by a congruence
and do the same to their own states as far as a second relation tells, then the machines under them
go in lock step: every call of a session gives the same answer, and the relations hold in the end.
-/

namespace Lineage

inductive Call
  | loadText (program : String)
  | load (program : List Instruction)
  | step
  | runFor (n : Nat)
  | run (fuel : Nat)
deriving DecidableEq

inductive Answer
  | loaded (result : Except DecodeError Unit)
  | stepped (result : Except Fault Bool)
  | ran (result : Option (Except Fault Nat))
deriving DecidableEq

namespace Machine

variable {ω ω' : Type} [Observer ω] [Observer ω']

def call (m : Machine ω) : Call → Answer × Machine ω
  | .loadText program => (.loaded (m.loadText program).1, (m.loadText program).2)
  | .load program => (.loaded (.ok ()), m.load program)
  | .step => (.stepped m.step.1, m.step.2)
  | .runFor n => (.stepped (m.runFor n).1, (m.runFor n).2)
  | .run fuel => (.ran (m.run fuel).1, (m.run fuel).2)

/-- The answers to a sequence of calls, and the machine after them. -/
def session (m : Machine ω) : List Call → List Answer × Machine ω
  | [] => ([], m)
  | c :: cs => ((m.call c).1 :: ((m.call c).2.session cs).1, ((m.call c).2.session cs).2)

end Machine

/-- Two observers that keep stores in the relation `S` and their own states in the relation `R`. -/
structure Observer.InStep {ω ω' : Type} [Observer ω] [Observer ω'] (S : Store → Store → Prop)
    (R : ω → ω' → Prop) : Prop where
  fetched : ∀ {o o'}, R o o' → ∀ {pc pc' : Operand}, pc'.bare = pc.bare →
    R (Observer.fetched o pc) (Observer.fetched o' pc')
  decoded : ∀ {o o'}, R o o' → ∀ i, R (Observer.decoded o i) (Observer.decoded o' i)
  before : ∀ {o o' s s'}, R o o' → S s s' → ∀ i,
    R (Observer.before o s i).1 (Observer.before o' s' i).1 ∧
      S (Observer.before o s i).2 (Observer.before o' s' i).2
  after : ∀ {o o' s s'}, R o o' → S s s' → ∀ running,
    R (Observer.after o s running).1 (Observer.after o' s' running).1 ∧
      S (Observer.after o s running).2 (Observer.after o' s' running).2

/-- Two machines with related stores and observers that agree on all else. -/
structure Machine.InStep {ω ω' : Type} (S : Store → Store → Prop) (R : ω → ω' → Prop)
    (m : Machine ω) (m' : Machine ω') : Prop where
  store : S m.store m'.store
  program : m'.program = m.program
  observer : R m.observer m'.observer
  steps : m'.steps = m.steps

namespace Machine.InStep

variable {ω ω' : Type} {S : Store → Store → Prop} {R : ω → ω' → Prop} {m : Machine ω}
  {m' : Machine ω'}

lemma start {s s' : Store} (hs : S s s') (o : ω) (o' : ω') (ho : R o o') :
    InStep S R { store := s, observer := o } { store := s', observer := o' } :=
  ⟨hs, rfl, ho, rfl⟩

lemma next (hS : Congruence S) (h : InStep S R m m') : m'.next = m.next := by
  have hpc := congrArg Operand.value (hS.operand h.store Store.pc)
  replace hpc : m'.store.pcValue = m.store.pcValue := hpc
  rw [Machine.next, Machine.next, h.program, hpc]

lemma loadText (hS : Likeness S) (program : String) (h : InStep S R m m') :
    (m'.loadText program).1 = (m.loadText program).1 ∧
      InStep S R (m.loadText program).2 (m'.loadText program).2 := by
  have halike := respects_decode hS program h.store
  unfold Machine.loadText
  generalize decode program m.store = x at halike ⊢
  generalize decode program m'.store = x' at halike ⊢
  cases halike with
  | ok is hs => exact ⟨rfl, hs, rfl, h.observer, h.steps⟩
  | error e hs => exact ⟨rfl, hs, h.program, h.observer, h.steps⟩

variable [Observer ω] [Observer ω']

lemma told (hS : Congruence S) (hR : Observer.InStep S R) (h : InStep S R m m') :
    R m.told.1 m'.told.1 ∧ S m.told.2 m'.told.2 := by
  have hfetched := hR.fetched h.observer (hS.operand h.store Store.pc)
  have hbefore := hR.before (hR.decoded hfetched m.next) h.store m.next
  rw [Machine.told, Machine.told, h.next hS]
  exact hbefore

/-- A step keeps machines in step and has one result on both. -/
lemma step (hS : Congruence S) (hR : Observer.InStep S R) (h : InStep S R m m') :
    m'.step.1 = m.step.1 ∧ InStep S R m.step.2 m'.step.2 := by
  obtain ⟨htold, hstore⟩ := h.told hS hR
  have halike := Instruction.respects_execute hS m.next hstore
  generalize hx : m.next.execute m.told.2 = x at halike
  generalize hx' : m.next.execute m'.told.2 = x' at halike
  rw [← h.next hS] at hx'
  cases halike with
  | error e hs =>
    rw [step_of_error hx, step_of_error hx']
    exact ⟨rfl, hs, h.program, htold, h.steps⟩
  | @ok s s' flow hs =>
    rw [step_of_ok hx, step_of_ok hx']
    have hadvance : S (advance s flow) (advance s' flow) := by
      cases flow with
      | next =>
        have hpc := congrArg Operand.value (hS.operand hs Store.pc)
        replace hpc : s'.pcValue = s.pcValue := hpc
        rw [advance, advance, hpc]
        exact hS.setPc hs _
      | jump target | halt => exact hs
    obtain ⟨hobserver, hafter⟩ := hR.after htold hadvance (flow != .halt)
    exact ⟨rfl, hafter, h.program, hobserver, by rw [h.steps]⟩

lemma runFor (hS : Congruence S) (hR : Observer.InStep S R) (n : Nat) (h : InStep S R m m') :
    (m'.runFor n).1 = (m.runFor n).1 ∧ InStep S R (m.runFor n).2 (m'.runFor n).2 := by
  induction n generalizing m m' with
  | zero => exact ⟨rfl, h⟩
  | succ n ih =>
    obtain ⟨hr, hm⟩ := h.step hS hR
    unfold Machine.runFor
    generalize m.step = a at hr hm ⊢
    generalize m'.step = b at hr hm ⊢
    rcases a with ⟨e | _ | _, k⟩ <;> rcases b with ⟨_, k'⟩ <;> cases hr
    · exact ⟨rfl, hm⟩
    · exact ⟨rfl, hm⟩
    · exact ih hm

lemma runToHalt (hS : Congruence S) (hR : Observer.InStep S R) (fuel : Nat)
    (h : InStep S R m m') : (m'.runToHalt fuel).1 = (m.runToHalt fuel).1 ∧
      InStep S R (m.runToHalt fuel).2 (m'.runToHalt fuel).2 := by
  induction fuel generalizing m m' with
  | zero => exact ⟨rfl, h⟩
  | succ fuel ih =>
    obtain ⟨hr, hm⟩ := h.step hS hR
    unfold Machine.runToHalt
    generalize m.step = a at hr hm ⊢
    generalize m'.step = b at hr hm ⊢
    rcases a with ⟨e | _ | _, k⟩ <;> rcases b with ⟨_, k'⟩ <;> cases hr
    · exact ⟨rfl, hm⟩
    · exact ⟨rfl, hm⟩
    · exact ih hm

lemma run (hS : Congruence S) (hR : Observer.InStep S R) (fuel : Nat) (h : InStep S R m m') :
    (m'.run fuel).1 = (m.run fuel).1 ∧ InStep S R (m.run fuel).2 (m'.run fuel).2 := by
  obtain ⟨hr, hm⟩ := h.runToHalt hS hR fuel
  refine ⟨?_, hm⟩
  simp only [Machine.run, hr, hm.steps, h.steps]

lemma call (hS : Congruence S) (hR : Observer.InStep S R) (c : Call) (h : InStep S R m m') :
    (m'.call c).1 = (m.call c).1 ∧ InStep S R (m.call c).2 (m'.call c).2 := by
  cases c with
  | loadText program =>
    obtain ⟨hr, hm⟩ := h.loadText hS.toLikeness program
    exact ⟨congrArg Answer.loaded hr, hm⟩
  | load program => exact ⟨rfl, h.store, rfl, h.observer, h.steps⟩
  | step =>
    obtain ⟨hr, hm⟩ := h.step hS hR
    exact ⟨congrArg Answer.stepped hr, hm⟩
  | runFor n =>
    obtain ⟨hr, hm⟩ := h.runFor hS hR n
    exact ⟨congrArg Answer.stepped hr, hm⟩
  | run fuel =>
    obtain ⟨hr, hm⟩ := h.run hS hR fuel
    exact ⟨congrArg Answer.ran hr, hm⟩

/-- A session keeps machines in step and has the same answers on both. -/
lemma session (hS : Congruence S) (hR : Observer.InStep S R) (cs : List Call)
    (h : InStep S R m m') : (m'.session cs).1 = (m.session cs).1 ∧
      InStep S R (m.session cs).2 (m'.session cs).2 := by
  induction cs generalizing m m' with
  | nil => exact ⟨rfl, h⟩
  | cons c cs ih =>
    obtain ⟨hr, hm⟩ := h.call hS hR c
    obtain ⟨hrs, hms⟩ := ih hm
    exact ⟨by rw [Machine.session, Machine.session, hr, hrs], hms⟩

end Machine.InStep

end Lineage
