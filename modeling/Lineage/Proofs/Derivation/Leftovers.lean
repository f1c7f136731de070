import Lineage.Proofs.Derivation.Folding
import Lineage.Proofs.Progress

/-!
What a step that fails leaves behind in the tracker.

A decision is taken before the instruction has an effect, and nothing takes it back when the
instruction fails. The context stays as it was, but a binding is left pending, and the operands that
the decision is about stay marked, unless it could be seen in advance that the instruction would
fail. The context of a later branch tells of operands that are marked, and so it tells of nothing
that did not take effect if no failure before it left anything behind.
-/

namespace Lineage

variable {s u : Store} {m : Machine Tracker} {f : Fault} {id : OperandId}

namespace Tracker

/-- The context that a jump starts when some operands have been marked. -/
def tag (g : Graph) (s : Store) (taken : Bool) (marked : List OperandId) : String :=
  let states := (marked.map fun id => stateText g (s.operand id)).foldr place []
  (if taken then "Y" else "N") ++ "@" ++ Value.text s.pcValue ++ "|" ++ ";".intercalate states

lemma tag_peeked (h : s.Peeked u) (g : Graph) (taken : Bool) (marked : List OperandId) :
    tag g u taken marked = tag g s taken marked := by
  simp only [tag, Store.pcValue, h.operand]

lemma cellAt_eq_none_iff {p : Tracker × Store} :
    (cellAt id p).1 = none ↔ p.2.Outside (p.2.shown id) := by
  rw [cellAt_eq]
  rcases p.2.memoryCell_cases (p.2.shown id) with ⟨hout, hcell⟩ | ⟨hin, cell, hcell⟩
  · exact iff_of_true (by rw [hcell]; rfl) hout
  · exact iff_of_false (by rw [hcell]; exact nofun) hin

lemma context_adopt_branch (t : Tracker) (s : Store) (taken : Bool) (pc x : Reading) :
    ∃ marked, (t.adopt s (.branch taken pc x)).context = tag t.graph s taken marked ∧
      ∀ id, id ∈ marked ↔ id ∈ t.marked ∨
        (s.operand id).kind.isConstant = false ∧ id ∈ (Decision.branch taken pc x).marks := by
  refine ⟨(t.pendDerived s Store.pc (.jump taken) [pc, x]).marked, ?_, fun id => ?_⟩
  · have hgraph : (t.pendDerived s Store.pc (.jump taken) [pc, x]).graph = t.graph :=
      graph_markAll ..
    rw [← hgraph]
    rfl
  · exact mem_markAll t s [pc, x] Store.pc

/-! ### Decisions about nothing -/

section Plan

variable {i : Instruction} {a b dst : OperandId}

lemma marks_plan_binary {op : BinaryOp} (hop : i.opcode = .binary op) (ha : i.id? .a = some a)
    (hb : i.id? .b = some b) (hdst : i.id? .dst = some dst) (p : Tracker × Store) :
    (plan i p).1.marks = [] ↔
      ((read a p).1.constant = true ∧ (read b (read a p).2).1.constant = true) ∧
        op.eval (read a p).1.value (read b (read a p).2).1.value = none := by
  rw [plan_binary hop ha hb hdst, ← Outcome.ofBinary_eq_nothing_iff]
  cases Outcome.ofBinary op (read a p).1 (read b (read a p).2).1 <;> simp [Decision.marks]

lemma marks_plan_ldm (hop : i.opcode = .ldm) (ha : i.id? .a = some a)
    (hdst : i.id? .dst = some dst) (p : Tracker × Store) :
    (plan i p).1.marks = [] ↔ p.2.Outside (p.2.shown a) := by
  rw [plan_ldm hop ha hdst, ← cellAt_eq_none_iff]
  cases (cellAt a p).1 <;> simp [Decision.marks]

lemma marks_plan_stm (hop : i.opcode = .stm) (ha : i.id? .a = some a)
    (hdst : i.id? .dst = some dst) (p : Tracker × Store) :
    (plan i p).1.marks = [] ↔ p.2.Outside (p.2.shown dst) := by
  rw [plan_stm hop ha hdst, ← cellAt_eq_none_iff]
  cases (cellAt dst p).1 <;> simp [Decision.marks]

end Plan

end Tracker

namespace Machine

/-- What is looked at in advance shows that the next instruction fails: a division of one constant
by another that is undefined, or an address outside the memory. -/
inductive Foreseen (m : Machine Tracker) : Prop
  | division {op : BinaryOp} {a b : OperandId} {y : Reading} (opcode : m.next.opcode = .binary op)
      (a_eq : m.next.id? .a = some a) (b_eq : m.next.id? .b = some b)
      (second : y =
        (Tracker.read b (Tracker.read a ({ m.observer with pending := none }, m.store)).2).1)
      (constant : (m.found a).constant = true ∧ y.constant = true)
      (undefined : op.eval (m.found a).value y.value = none)
  | load {a : OperandId} (opcode : m.next.opcode = .ldm) (a_eq : m.next.id? .a = some a)
      (outside : m.store.Outside (m.store.shown a))
  | store {dst : OperandId} (opcode : m.next.opcode = .stm) (dst_eq : m.next.id? .dst = some dst)
      (outside : m.store.Outside (m.store.shown dst))

/-! ### Steps that fail -/

lemma observer_of_error (h : m.step.1 = .error f) : m.step.2.observer = m.adopted := by
  have hcourse := m.step_course
  rw [h] at hcourse
  generalize m.step.2 = m' at hcourse
  cases hcourse
  rfl

lemma observer_step (m : Machine Tracker) : m.step.2.observer = m.adopted ∨
    ∃ u, m.step.2.observer = (m.adopted.settle u).1 := by
  have hcourse := m.step_course
  generalize m.step.1 = r at hcourse
  generalize m.step.2 = m' at hcourse ⊢
  cases hcourse with
  | fault => exact .inl rfl
  | done => exact .inr ⟨_, rfl⟩

lemma marked_step (m : Machine Tracker) : m.step.2.observer.marked = m.adopted.marked := by
  rcases m.observer_step with h | ⟨u, h⟩
  · rw [h]
  · rw [h, Tracker.marked_settle]

lemma context_step (m : Machine Tracker) : m.step.2.observer.context = m.adopted.context := by
  rcases m.observer_step with h | ⟨u, h⟩
  · rw [h]
  · rw [h, Tracker.context_settle]

lemma context_of_not_branches (h : ¬ m.Branches) :
    m.step.2.observer.context = m.observer.context := by
  have hd : ∀ taken p x, m.decision ≠ .branch taken p x := fun taken p x hd => h ⟨taken, p, x, hd⟩
  rw [context_step, adopted, Tracker.context_adopt _ _ hd, m.planned_looked.tracker]

/-- A decision on an instruction that fails is about nothing exactly if the failure was foreseen. -/
lemma Decoded.marks_eq_nil_iff (h : m.Decoded) (hf : m.next.Fails m.told.2 f) :
    m.decision.marks = [] ↔ m.Foreseen := by
  cases hf with
  | division hop _ ha hb =>
    obtain ⟨dst, hdst⟩ := h.next.exists_id .dst (by rw [hop]; rfl)
    refine (Tracker.marks_plan_binary hop ha hb hdst _).trans
      ⟨fun ⟨hc, hu⟩ => .division hop ha hb rfl hc hu, fun hforeseen => ?_⟩
    cases hforeseen with
    | division hop' ha' hb' hy hc hu =>
      rw [hop] at hop'
      rw [ha] at ha'
      rw [hb] at hb'
      cases hop'
      cases ha'
      cases hb'
      rw [hy] at hc hu
      exact ⟨hc, hu⟩
    | load hop' | store hop' => rw [hop] at hop'; cases hop'
  | load hop ha =>
    obtain ⟨dst, hdst⟩ := h.next.exists_id .dst (by rw [hop]; rfl)
    refine (Tracker.marks_plan_ldm hop ha hdst _).trans ⟨.load hop ha, fun hforeseen => ?_⟩
    cases hforeseen with
    | load _ ha' hout =>
      rw [ha] at ha'
      cases ha'
      exact hout
    | division hop' | store hop' => rw [hop] at hop'; cases hop'
  | store hop ha hdst =>
    refine (Tracker.marks_plan_stm hop ha hdst _).trans ⟨.store hop hdst, fun hforeseen => ?_⟩
    cases hforeseen with
    | store _ hdst' hout =>
      rw [hdst] at hdst'
      cases hdst'
      exact hout
    | division hop' | load hop' => rw [hop] at hop'; cases hop'

lemma not_branches_of_opcode (h : m.next.opcode ≠ .jcc) : ¬ m.Branches :=
  fun ⟨_, _, _, hd⟩ => h ((Tracker.plans_plan _ _).jumps hd)

lemma not_branches_of_fails (hf : m.next.Fails m.told.2 f) : ¬ m.Branches := by
  refine not_branches_of_opcode ?_
  cases hf with
  | division hop | load hop | store hop => rw [hop]; exact nofun

/-- A step that fails leaves nothing behind exactly if the failure was foreseen. -/
lemma Decoded.unchanged_iff (h : m.Decoded) (hf : m.step.1 = .error f) :
    m.step.2.observer.context = m.observer.context ∧
      (m.step.2.observer.pending = none ∧ m.step.2.observer.marked = m.observer.marked ↔
        m.Foreseen) := by
  have hfails := (h.step_error_iff .tracker).1 hf
  have hlooked := m.planned_looked.tracker
  refine ⟨context_of_not_branches (not_branches_of_fails hfails), ?_⟩
  rw [observer_of_error hf, ← h.marks_eq_nil_iff hfails]
  refine ⟨fun ⟨hp, _⟩ => ?_, fun hd => ?_⟩
  · by_contra hd
    obtain ⟨x, hx, -⟩ := Tracker.pending_adopt m.planned.2.1 m.planned.2.2 hd
    rw [adopted, hx] at hp
    cases hp
  · rw [adopted, Tracker.adopt_of_marks _ _ hd, hlooked]
    exact ⟨rfl, rfl⟩

/-! ### Everything that may happen to a machine -/

/-- What becomes of a machine that starts with a tracker that has recorded nothing. Programs are
loaded, operands are set, nodes are asked for, and steps are taken, failing ones among them. The
list holds the machines that have taken a step since the last branch, each as it was before. -/
inductive Becomes (s : Store) : Machine Tracker → List (Machine Tracker) → Prop
  | start : Becomes s { store := s, observer := {} } []
  | loadText {m : Machine Tracker} {ms : List (Machine Tracker)} (program : String)
      (past : Becomes s m ms) : Becomes s (m.loadText program).2 ms
  | write {m : Machine Tracker} {ms : List (Machine Tracker)} {id : OperandId} {v : Value}
      {t : Store} (past : Becomes s m ms) (writes : m.store.write id v = .ok t) :
      Becomes s { m with store := t } ms
  | nodeOf {m : Machine Tracker} {ms : List (Machine Tracker)} (id : OperandId)
      (past : Becomes s m ms) : Becomes s (m.nodeOf id).2 ms
  | step {m : Machine Tracker} {ms : List (Machine Tracker)} (past : Becomes s m ms)
      (straight : ¬ m.Branches) : Becomes s m.step.2 (m :: ms)
  | branch {m : Machine Tracker} {ms : List (Machine Tracker)} (past : Becomes s m ms)
      (branches : m.Branches) : Becomes s m.step.2 []

lemma observer_loadText (m : Machine Tracker) (program : String) :
    (m.loadText program).2.observer = m.observer := by
  unfold Machine.loadText
  split <;> rfl

/-- A node that is asked for may be added to the graph, which is all that the tracker does. -/
lemma observer_nodeOf (m : Machine Tracker) (id : OperandId) :
    ∃ g, m.observer.graph.Grows g ∧ (m.nodeOf id).2.observer = { m.observer with graph := g } :=
  ⟨_, Tracker.resolve_grows .., Tracker.resolve_eq ..⟩

namespace Becomes

variable {ms : List (Machine Tracker)}

lemma decoded (h : Becomes s m ms) (hl : s.Laid) : m.Decoded ∧ ∀ k ∈ ms, k.Decoded := by
  induction h with
  | start => exact ⟨⟨hl, nofun⟩, nofun⟩
  | loadText program _ ih => exact ⟨ih.1.loadText program, ih.2⟩
  | write _ hw ih => exact ⟨ih.1.sameFrame (Store.write_sameFrame hw) rfl, ih.2⟩
  | nodeOf id _ ih => exact ⟨⟨ih.1.laid, ih.1.complete⟩, ih.2⟩
  | step _ _ ih => exact ⟨ih.1.step .tracker, List.forall_mem_cons.2 ih⟩
  | branch _ _ ih => exact ⟨ih.1.step .tracker, nofun⟩

lemma mem_marked (h : Becomes s m ms) : id ∈ m.observer.marked ↔
    ∃ k ∈ ms, (k.store.operand id).kind.isConstant = false ∧ id ∈ k.decision.marks := by
  induction h with
  | start => simp
  | loadText program _ ih => rw [observer_loadText, ih]
  | write _ _ ih => exact ih
  | @nodeOf m ms j _ ih =>
    obtain ⟨g, -, hobserver⟩ := m.observer_nodeOf j
    rw [hobserver, ih]
  | @step m ms _ hb ih =>
    rw [marked_step, mem_marked_adopted hb, ih]
    simp only [List.exists_mem_cons_iff]
    exact or_comm
  | branch _ hb ih =>
    rw [marked_step, marked_adopted_of_branches hb]
    simp

end Becomes

/-- A step that is about something has an effect, or it fails without that having been foreseen. -/
lemma Decoded.tells (h : m.Decoded) (hid : id ∈ m.decision.marks) :
    (∃ running, m.step.1 = .ok running) ∨ ∃ f, m.step.1 = .error f ∧ ¬ m.Foreseen := by
  cases hr : m.step.1 with
  | ok running => exact .inl ⟨running, rfl⟩
  | error f =>
    refine .inr ⟨f, rfl, fun hforeseen => ?_⟩
    rw [(h.marks_eq_nil_iff ((h.step_error_iff .tracker).1 hr)).2 hforeseen] at hid
    cases hid

/-- **Failures that are foreseen leave no trace**, and no others: whatever has happened to a
machine, a step that fails keeps the context, and it leaves no binding pending and no more operands
marked exactly if what was looked at in advance showed that it would fail. The context of a later
branch tells of the operands that steps were about since the branch before it, of those alone that
had an effect or failed without that having been foreseen. -/
theorem failures_leave_no_trace_iff {ms : List (Machine Tracker)} (hl : s.Laid)
    (h : Becomes s m ms) :
    (∀ f, m.step.1 = .error f →
        m.step.2.observer.context = m.observer.context ∧
          (m.step.2.observer.pending = none ∧ m.step.2.observer.marked = m.observer.marked ↔
            m.Foreseen)) ∧
      ∀ taken pc x, m.decision = .branch taken pc x →
        (∃ running, m.step.1 = .ok running) ∧
        ∃ marked, m.step.2.observer.context =
            Tracker.tag m.planned.2.1.graph m.store taken marked ∧
          ∀ id, id ∈ marked ↔ ∃ k ∈ m :: ms, id ∈ k.decision.marks ∧
            (k.store.operand id).kind.isConstant = false ∧
            ((∃ running, k.step.1 = .ok running) ∨ ∃ f, k.step.1 = .error f ∧ ¬ k.Foreseen) := by
  obtain ⟨hdecoded, hpast⟩ := h.decoded hl
  refine ⟨fun f hf => hdecoded.unchanged_iff hf, fun taken pc x hd => ⟨?_, ?_⟩⟩
  · -- a branch is decided on at jumps alone, and these do not fail
    cases hr : m.step.1 with
    | ok running => exact ⟨running, rfl⟩
    | error f =>
      have hfails := (hdecoded.step_error_iff .tracker).1 hr
      exact absurd ⟨taken, pc, x, hd⟩ (not_branches_of_fails hfails)
  · have hlooked := m.planned_looked
    obtain ⟨marked, hcontext, hmarked⟩ :=
      m.planned.2.1.context_adopt_branch m.planned.2.2 taken pc x
    rw [Tracker.tag_peeked hlooked.store, ← hd] at hcontext
    refine ⟨marked, m.context_step.trans hcontext, fun id => ?_⟩
    have hthis : id ∈ marked ↔ ∃ k ∈ m :: ms,
        (k.store.operand id).kind.isConstant = false ∧ id ∈ k.decision.marks := by
      rw [hmarked, ← hd, hlooked.tracker, hlooked.store.operand, h.mem_marked]
      simp only [List.exists_mem_cons_iff]
      exact or_comm
    -- a failure that was foreseen is about nothing, so nothing is told of it
    rw [hthis]
    constructor
    · rintro ⟨k, hk, hkind, hid⟩
      have hkdecoded : k.Decoded := (List.forall_mem_cons.2 ⟨hdecoded, hpast⟩) k hk
      exact ⟨k, hk, hid, hkind, hkdecoded.tells hid⟩
    · rintro ⟨k, hk, hid, hkind, -⟩
      exact ⟨k, hk, hkind, hid⟩

/-- The second step divides one constant by another. Then the program counter is set to the jump,
and the context that it starts does not tell of the register that the division is about. -/
theorem failures_leave_no_trace_iff_constants :
    let s : Store :=
      { layout := { registers := ["A", "B"], inputs := 1 }
        operands := #[{ kind := .register pcName }, { kind := .register "A" },
          { kind := .register "B" }, { kind := .input 0 }]
        source := .queues [[7]] }
    let m := (loadText { store := s, observer := ({} : Tracker) }
      "STR IN0, , A\nDIV %1, %0, B\nJCC A, , %0").2
    let failing := m.step.2
    let jumping := { failing.step.2 with store := failing.step.2.store.setPc 2 }
    (s.Laid ∧ Becomes s failing [m] ∧ Becomes s jumping [failing, m]) ∧
      (failing.step.1 = .error (.divisionByZero failing.next) ∧
        failing.step.2.observer.pending = none ∧
        failing.step.2.observer.marked = failing.observer.marked) ∧
      ∃ marked, 2 ∉ marked ∧ jumping.step.2.observer.context =
        Tracker.tag jumping.planned.2.1.graph jumping.store true marked := by
  intro s m failing jumping
  have hbuild : ({ registers := ["A", "B"], inputs := 1, source := .queues [[7]] } :
      Config).build = .ok s := rfl
  obtain ⟨hl, -⟩ := Config.laid_of_build hbuild
  have hfailing : Becomes s failing [m] :=
    .step (.loadText _ .start) (not_branches_of_opcode (by decide +kernel))
  have hfails : failing.step.1 = .error (.divisionByZero failing.next) := by decide +kernel
  have hfailed : Becomes s failing.step.2 [failing, m] :=
    .step hfailing (not_branches_of_opcode (by decide +kernel))
  have hjumping : Becomes s jumping [failing, m] :=
    .write hfailed ((hfailed.decoded hl).1.laid.write_pc 2)
  have hop : failing.next.opcode = .binary .div := by decide +kernel
  have ha : failing.next.id? .a = some 4 := by decide +kernel
  have hb : failing.next.id? .b = some 5 := by decide +kernel
  have hforeseen : failing.Foreseen :=
    .division hop ha hb rfl (by decide +kernel) (by decide +kernel)
  have hd : jumping.decision =
      .branch true ⟨some 0, "PC", 3, 2, true⟩ ⟨some 1, "A", 0, 7, false⟩ := by decide +kernel
  obtain ⟨-, marked, hcontext, hmarked⟩ := (failures_leave_no_trace_iff hl hjumping).2 _ _ _ hd
  refine ⟨⟨hl, hfailing, hjumping⟩,
    ⟨hfails, ((failures_leave_no_trace_iff hl hfailing).1 _ hfails).2.2 hforeseen⟩,
    marked, fun hid => ?_, hcontext⟩
  obtain ⟨k, hk, hid, -⟩ := (hmarked 2).1 hid
  have hnone : ∀ k ∈ [jumping, failing, m], 2 ∉ k.decision.marks := by decide +kernel
  exact hnone k hk hid

/-- A division by a value that was read from a channel fails, and a binding is left pending. The
register that was to be written has a place in the context of the next branch, and it has none
where the division has not been tried. -/
theorem failures_may_leave_traces :
    let s : Store :=
      { layout := { registers := ["A", "B", "C"], inputs := 2 }
        operands := #[{ kind := .register pcName }, { kind := .register "A" },
          { kind := .register "B" }, { kind := .register "C" }, { kind := .input 0 },
          { kind := .input 1 }]
        source := .queues [[7], [0]] }
    let m := (loadText { store := s, observer := ({} : Tracker) }
      "STR IN0, , A\nSTR IN1, , B\nDIV A, B, C\nJCC A, , %0").2
    let failing := m.after 2
    let failed := failing.step.2
    let tried := { failed with store := failed.store.setPc 3 }
    let skipped := { failing with store := failing.store.setPc 3 }
    failing.step.1 = .error (.divisionByZero failing.next) ∧
      (failed.observer.pending ≠ none ∧ failed.observer.marked ≠ failing.observer.marked) ∧
      tried.step.2.observer.context =
        "Y@3|A=7:IN0;B=0:IN1;C=0:%0;IN0=7:IN0;IN1=0:IN1;PC=3:%3" ∧
      skipped.step.2.observer.context =
        "Y@3|A=7:IN0;B=0:IN1;IN0=7:IN0;IN1=0:IN1;PC=3:%3" := by
  decide +kernel

end Machine

end Lineage
