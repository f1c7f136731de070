import Lineage.Proofs.Derivation.Mirroring
import Lineage.Proofs.Report.Renaming

/-!
Asking does not disturb tracking.

To ask for the node of an operand may record a constant or a leaf, and then whatever is recorded
later has another number. Nothing else changes: the machine goes through the same steps, in the same
contexts, records as many derivations, and reports the same in the end.
-/

namespace Lineage

variable {ρ ρ' : Renaming} {t t' : Tracker} {s u : Store} {i : Instruction}
  {m m' : Machine Tracker}

lemma Instruction.bound_of_execute {flow : Flow} (h : i.execute s = .ok flow u) {id : OperandId}
    {n : NodeId} (hn : ((Machine.advance u flow).operand id).node = some n) :
    (s.operand id).node = some n := by
  obtain ⟨e, v, hreads, hfollows⟩ := follows_of_execute h
  rw [hfollows.node] at hn
  exact hreads.steady.node hn

namespace Tracker

lemma Twin.nodesOf (h : Twin ρ t t') (hb : s.BoundIn t.graph) (ids : List OperandId) :
    ∃ ρ', Twin ρ' (t.nodesOf s ids).2 (t'.nodesOf (s.rename ρ) ids).2 ∧
      (t'.nodesOf (s.rename ρ) ids).1 = (t.nodesOf s ids).1.map ρ' ∧
      ρ.Agrees ρ' t.graph.size ∧ t.graph.size ≤ (t.nodesOf s ids).2.graph.size ∧
      ∀ n ∈ (t.nodesOf s ids).1, n < (t.nodesOf s ids).2.graph.size := by
  induction ids generalizing ρ t t' with
  | nil => exact ⟨ρ, h, rfl, .refl _ _, Nat.le_refl _, nofun⟩
  | cons id ids ih =>
    have hrecorded : ((s.operand id).rename ρ).recorded = (s.operand id).recorded := rfl
    obtain ⟨ρ₁, hagrees, hembeds, hnode, hlt⟩ := mirror_resolve h.graph (o := s.operand id)
      (fun n hn => hb hn) (s.operand id).recorded
    have hgrows := t.resolve_grows (s.operand id) (s.operand id).recorded
    have htwin : Twin ρ₁ (t.nodeOf s id).2 (t'.nodeOf (s.rename ρ) id).2 := by
      simp only [nodeOf, Store.operand_rename, hrecorded]
      rw [resolve_eq t, resolve_eq t']
      exact h.mono hembeds hagrees hgrows.size_le
    obtain ⟨ρ₂, htwin', hnodes, hagrees', hle, hlts⟩ :=
      ih htwin fun hn => hgrows.lt (hb hn)
    rw [Store.rename_congr hb hagrees] at htwin' hnodes
    have hhead : (t'.nodeOf (s.rename ρ) id).1 = ρ₂ (t.nodeOf s id).1 := by
      simp only [nodeOf, Store.operand_rename, hrecorded]
      rw [hnode]
      exact (hagrees' _ hlt).symm
    refine ⟨ρ₂, htwin', ?_, hagrees.trans hagrees' hgrows.size_le, Nat.le_trans hgrows.size_le hle,
      ?_⟩
    · simp only [Tracker.nodesOf, List.map_cons, hhead, hnodes]
    · intro n hn
      rcases List.mem_cons.1 hn with rfl | hn
      · exact Nat.lt_of_lt_of_le hlt hle
      · exact hlts n hn

/-- Looking up a node is nothing to a twin. -/
lemma Twin.nodeOf_right (h : Twin ρ t t') (id : OperandId) : Twin ρ t (t'.nodeOf s id).2 := by
  cases hn : (s.operand id).node with
  | some n =>
    simp only [nodeOf, resolve, hn]
    exact h
  | none =>
    obtain ⟨x, hx, hc, -, hp⟩ := resolve_puts h.graph.consed' hn (s.operand id).recorded rfl
    rw [nodeOf, resolve_eq]
    exact ⟨h.graph.puts_right hp hx hc, h.context, h.marked, h.pending, h.within⟩

lemma Twin.nodesOf_right (h : Twin ρ t t') (ids : List OperandId) :
    Twin ρ t (t'.nodesOf s ids).2 := by
  induction ids generalizing t' with
  | nil => exact h
  | cons id ids ih => exact ih (h.nodeOf_right id)

end Tracker

namespace Machine

/-- The machines have gone through the same and recorded the same under other numbers. -/
structure Twin (ρ : Renaming) (m m' : Machine Tracker) : Prop where
  observer : Tracker.Twin ρ m.observer m'.observer
  store : m'.store = m.store.rename ρ
  bound : m.store.BoundIn m.observer.graph
  program : m'.program = m.program
  steps : m'.steps = m.steps

lemma Twin.adopted (h : Twin ρ m m') : ∃ ρ', Tracker.Twin ρ' m.adopted m'.adopted ∧
    m'.planned.2.2 = m.planned.2.2.rename ρ' ∧ m.planned.2.2.BoundIn m.adopted.graph ∧
    m'.next = m.next := by
  have hpc : m'.store.pcValue = m.store.pcValue := by
    rw [Store.pcValue, h.store, Store.operand_rename]
    rfl
  have hnext : m'.next = m.next := by rw [next, next, h.program, hpc]
  have hstart : Tracker.Mirrored ρ ({ m.observer with pending := none }, m.store)
      ({ m'.observer with pending := none }, m'.store) := ⟨h.observer.graph, h.store, h.bound⟩
  -- planning extends the renaming by what it looks up, and adopting by the constant it records
  obtain ⟨ρ₁, hagrees₁, hplanned, hdecision, hwithin⟩ := Tracker.mirror_plan hstart m.next
  have hplan' : m'.planned =
      Tracker.plan m.next ({ m'.observer with pending := none }, m'.store) := by
    rw [planned, hnext]
  rw [← hplan'] at hplanned hdecision
  replace hplanned : Tracker.Mirrored ρ₁ m.planned.2 m'.planned.2 := hplanned
  replace hdecision : m'.decision = m.decision.rename ρ₁ := hdecision
  replace hwithin : m.decision.Within m.planned.2.1.graph.size := hwithin
  have hlooked := m.planned_looked
  have hlooked' := m'.planned_looked
  have htwin : Tracker.Twin ρ₁ m.planned.2.1 m'.planned.2.1 := by
    rw [hlooked.tracker, hlooked'.tracker]
    have hnone : Tracker.Twin ρ { m.observer with pending := none }
        { m'.observer with pending := none } :=
      ⟨h.observer.graph, h.observer.context, h.observer.marked, rfl, fun x hx => by cases hx⟩
    exact hnone.mono hplanned.graph hagrees₁ hlooked.graph.size_le
  obtain ⟨ρ₂, hagrees₂, hadopted⟩ := htwin.adopt hplanned.bound hwithin
  rw [← hplanned.store, ← hdecision] at hadopted
  refine ⟨ρ₂, hadopted, ?_, fun hn => ?_, hnext⟩
  · rw [Store.rename_congr hplanned.bound hagrees₂]
    exact hplanned.store
  · exact (Tracker.graph_adopt_grows ..).lt (hplanned.bound hn)

lemma Twin.step (h : Twin ρ m m') : m'.step.1 = m.step.1 ∧ ∃ ρ', Twin ρ' m.step.2 m'.step.2 := by
  obtain ⟨ρ₁, hadopted, hstore, hbound, hnext⟩ := h.adopted
  -- an execution never looks at a node, so it does the same to the renamed store
  have halike := Instruction.respects_execute (Store.rename_congruence ρ₁) m.next hstore
  generalize hx : m.next.execute m.planned.2.2 = x at halike
  generalize hx' : m.next.execute m'.planned.2.2 = x' at halike
  rw [← hnext] at hx'
  cases halike with
  | error f hs =>
    rw [step_of_error hx, step_of_error hx']
    refine ⟨rfl, ρ₁, hadopted, hs, fun hn => ?_, h.program, h.steps⟩
    exact hbound ((Instruction.steady_of_execute_error hx).node hn)
  | @ok u u' flow hs =>
    rw [step_of_ok hx, step_of_ok hx']
    have hadvance : advance u' flow = (advance u flow).rename ρ₁ := by
      rw [hs]
      cases flow with
      | next =>
        have hpc : (u.rename ρ₁).pcValue = u.pcValue := by
          rw [Store.pcValue, Store.operand_rename]
          rfl
        rw [advance, advance, hpc, Store.setPc_rename]
      | jump | halt => rfl
    obtain ⟨ρ₂, -, hsettled, hsettled', hbound'⟩ := hadopted.settle (s := advance u flow)
      fun hn => hbound (Instruction.bound_of_execute hx hn)
    rw [← hadvance] at hsettled hsettled'
    exact ⟨rfl, ρ₂, hsettled, hsettled', hbound', h.program, by rw [h.steps]⟩

end Machine

/-! ### Sessions -/

inductive Action
  | step
  /-- Asks for the node of an operand. -/
  | nodeOf (id : OperandId)
  /-- Asks for a report. -/
  | report (roots : List OperandId)
deriving DecidableEq

def Action.isStep : Action → Bool
  | .step => true
  | .nodeOf _ | .report _ => false

namespace Machine

def nodeOf (m : Machine Tracker) (id : OperandId) : NodeId × Machine Tracker :=
  let (n, t) := m.observer.nodeOf m.store id
  (n, { m with observer := t })

def report (m : Machine Tracker) (roots : List OperandId) :
    List Report.Event × Machine Tracker :=
  let (es, t) := m.observer.report m.store roots
  (es, { m with observer := t })

/-- The results of the steps among some actions, and the machine behind them. -/
def acts (m : Machine Tracker) : List Action → List (Except Fault Bool) × Machine Tracker
  | [] => ([], m)
  | .step :: as => (m.step.1 :: (m.step.2.acts as).1, (m.step.2.acts as).2)
  | .nodeOf id :: as => (m.nodeOf id).2.acts as
  | .report roots :: as => (m.report roots).2.acts as

/-- Questions leave a twin of the machine that is not asked. -/
lemma Twin.acts (h : Twin ρ m m') (as : List Action) :
    (m'.acts as).1 = (m.acts (as.filter Action.isStep)).1 ∧
      ∃ ρ', Twin ρ' (m.acts (as.filter Action.isStep)).2 (m'.acts as).2 := by
  induction as generalizing ρ m m' with
  | nil => exact ⟨rfl, ρ, h⟩
  | cons a as ih =>
    cases a with
    | step =>
      obtain ⟨hresult, ρ', h'⟩ := h.step
      obtain ⟨hresults, ρ'', h''⟩ := ih h'
      exact ⟨congrArg₂ List.cons hresult hresults, ρ'', h''⟩
    | nodeOf id =>
      exact ih ⟨h.observer.nodeOf_right id, h.store, h.bound, h.program, h.steps⟩
    | report roots =>
      exact ih ⟨h.observer.nodesOf_right roots, h.store, h.bound, h.program, h.steps⟩

lemma Twin.report (h : Twin ρ m m') (roots : List OperandId) :
    ∃ ρ', (m'.report roots).1 = (m.report roots).1.map (Report.Event.rename ρ') := by
  obtain ⟨ρ', htwin, hnodes, -, -, hlt⟩ := h.observer.nodesOf h.bound roots
  refine ⟨ρ', ?_⟩
  have hevents := htwin.graph.events hlt
  rw [← hnodes, ← h.store] at hevents
  exact hevents

lemma twin_of_loadText {s : Store} {program : String} (hu : s.Unbound)
    (hload : loadText { store := s, observer := {} } program = (.ok (), m)) :
    Twin (Equiv.refl _) m m := by
  obtain ⟨hi, hobserver⟩ := interned_of_loadText hload
  have hunbound := hi.unbound hu
  refine ⟨?_, (Store.rename_of_unbound hunbound).symm, fun hn => ?_, rfl, rfl⟩
  · rw [hobserver]
    exact ⟨.refl Graph.consed_empty, rfl, rfl, rfl, nofun⟩
  · rw [hunbound] at hn
    cases hn

lemma twin_after {s : Store} {program : String} (hu : s.Unbound)
    (hload : loadText { store := s, observer := {} } program = (.ok (), m)) (n : Nat) :
    ∃ ρ, Twin ρ (m.after n) (m.after n) := by
  induction n with
  | zero => exact ⟨_, twin_of_loadText hu hload⟩
  | succ n ih =>
    obtain ⟨ρ, h⟩ := ih
    exact h.step.2

/-- No graph that a machine records holds a node twice. -/
lemma consed_after {s : Store} {program : String} (hu : s.Unbound)
    (hload : loadText { store := s, observer := {} } program = (.ok (), m)) (n : Nat) :
    (m.after n).observer.graph.Consed := by
  obtain ⟨ρ, h⟩ := twin_after hu hload n
  exact h.observer.graph.consed

/-- **Asking does not disturb tracking**: when nodes and reports are asked for between the steps of
a machine, its steps have the same results as without the questions, and behind them the operands,
the traffic, the context and the number of derivations are the same. Any report is then the same,
as lines and as a drawing. -/
theorem questions_harmless {s : Store} {program : String} (hu : s.Unbound)
    (hload : loadText { store := s, observer := {} } program = (.ok (), m)) (as : List Action)
    (roots : List OperandId) (filter : Report.Dot.Filter) :
    let quiet := m.acts (as.filter Action.isStep)
    let asked := m.acts as
    asked.1 = quiet.1 ∧
      (∀ id, (asked.2.store.operand id).bare = (quiet.2.store.operand id).bare) ∧
      asked.2.store.reads = quiet.2.store.reads ∧
      asked.2.store.emitted = quiet.2.store.emitted ∧
      asked.2.observer.context = quiet.2.observer.context ∧
      asked.2.observer.graph.linkCount = quiet.2.observer.graph.linkCount ∧
      (Report.Lines.ofEvents (asked.2.report roots).1).texts =
        (Report.Lines.ofEvents (quiet.2.report roots).1).texts ∧
      (Report.Dot.ofEvents (asked.2.report roots).1).lines filter =
        (Report.Dot.ofEvents (quiet.2.report roots).1).lines filter := by
  intro quiet asked
  obtain ⟨hresults, ρ, h⟩ := (twin_of_loadText hu hload).acts as
  obtain ⟨ρ', hreport⟩ := h.report roots
  refine ⟨hresults, fun id => ?_, by rw [h.store]; rfl, by rw [h.store]; rfl, h.observer.context,
    h.observer.graph.linkCount, ?_, ?_⟩
  · rw [h.store, Store.operand_rename]
    rfl
  · rw [hreport, Report.lines_rename]
  · rw [hreport, Report.Dot.ofEvents_rename, Report.Dot.lines_rename]

/-- The value last consumed from a channel is asked for, which records a leaf. -/
theorem questions_harmless_leaf :
    let s : Store :=
      { layout := { registers := ["A"], inputs := 1 }
        operands := #[{ kind := .register pcName }, { kind := .register "A" }, { kind := .input 0 }]
        source := .queues [[3]] }
    let program := "STR IN0, , A\nADD A, A, A\nJCC A, , %1"
    let m := (loadText { store := s, observer := ({} : Tracker) } program).2
    let as : List Action := [.nodeOf 2, .step, .report [0, 2], .step, .step, .nodeOf 0]
    (s.Unbound ∧ loadText { store := s, observer := {} } program = (.ok (), m)) ∧
      (m.acts as).2.observer.graph.size ≠ (m.acts (as.filter Action.isStep)).2.observer.graph.size ∧
      (m.acts as).1 = (m.acts (as.filter Action.isStep)).1 := by
  intro s program m as
  have hbuild : ({ registers := ["A"], inputs := 1, source := .queues [[3]] } : Config).build =
      .ok s := rfl
  obtain ⟨-, hu⟩ := Config.laid_of_build hbuild
  have hload : loadText { store := s, observer := {} } program = (.ok (), m) :=
    Prod.ext (by decide +kernel) rfl
  exact ⟨⟨hu, hload⟩, by decide +kernel, (questions_harmless hu hload as [] id).1⟩

end Machine

end Lineage
