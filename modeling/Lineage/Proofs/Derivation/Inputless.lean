import Lineage.Proofs.Derivation.Folding
import Lineage.Proofs.Derivation.Recording

/-!
Programs without input.

A program that names no input channel, leaves nothing undefined and writes to no output channel has
nothing to derive: all it works on is known from the start. The tracker then records constants and
nothing else, whichever way the program goes. An output channel that was written before tracking
began is the one thing that is not known, so no such channel may be read.
-/

namespace Lineage

variable {g g' : Graph} {s t u : Store} {id : OperandId} {i : Instruction} {d : Decision}
  {m m' : Machine Tracker}

def Graph.AllConstant (g : Graph) : Prop := ∀ n < g.size, (g.node n).isConstant = true

namespace Instruction

/-- An instruction that names no input channel, is no `UNDEF`, and writes no output channel. -/
structure Inputless (i : Instruction) (s : Store) : Prop where
  input : ∀ slot, ∀ id ∈ i.id? slot, ¬ s.IsInput id
  undef : i.opcode ≠ .undef
  output : i.opcode.writesDst = true → ∀ id ∈ i.id? .dst, ¬ s.IsOutput id

/-- An instruction that takes no value from an output channel that has been written. `LDM` takes an
address from its source, and its value from memory. -/
def SkipsWritten (i : Instruction) (s : Store) : Prop :=
  i.opcode ≠ .ldm → ∀ slot, slot ≠ .dst → ∀ id ∈ i.id? slot, s.IsOutput id →
    (s.operand id).written = false

instance (i : Instruction) (s : Store) : Decidable (i.Inputless s) :=
  decidable_of_iff ((∀ slot, ∀ id ∈ i.id? slot, ¬ s.IsInput id) ∧ i.opcode ≠ .undef ∧
      (i.opcode.writesDst = true → ∀ id ∈ i.id? .dst, ¬ s.IsOutput id))
    ⟨fun ⟨hin, hundef, hout⟩ => ⟨hin, hundef, hout⟩, fun h => ⟨h.input, h.undef, h.output⟩⟩

instance (i : Instruction) (s : Store) : Decidable (i.SkipsWritten s) :=
  inferInstanceAs (Decidable (_ → _))

lemma inputless_unknown (s : Store) : unknown.Inputless s :=
  ⟨by simp, by decide, by simp⟩

lemma skipsWritten_unknown (s : Store) : unknown.SkipsWritten s := by simp [SkipsWritten]

lemma Inputless.sameFrame (h : i.Inputless s) (hf : s.SameFrame t) : i.Inputless t where
  input slot id hid := hf.isInput.not.2 (h.input slot id hid)
  undef := h.undef
  output hw id hid := hf.isOutput.not.2 (h.output hw id hid)

lemma SkipsWritten.sameFrame (h : i.SkipsWritten s) (hf : s.SameFrame t)
    (hw : ∀ {id}, s.IsOutput id → (t.operand id).written = (s.operand id).written) :
    i.SkipsWritten t := by
  intro hop slot hslot id hid hout
  have hout' := hf.isOutput.1 hout
  rw [hw hout', h hop slot hslot id hid hout']

lemma Inputless.isKnown (h : i.Inputless s) (hw : i.SkipsWritten s) (hop : i.opcode ≠ .ldm)
    {slot : Slot} (hslot : slot ≠ .dst) (hid : i.id? slot = some id) :
    (s.operand id).isKnown = true := by
  have hin := h.input slot id hid
  have hout := hw hop slot hslot id hid
  unfold Operand.isKnown
  cases hk : (s.operand id).kind with
  | input c => exact absurd ⟨c, hk⟩ hin
  | output c => simp [hout ⟨c, hk⟩]
  | register | constant | memory => rfl

lemma Inputless.target_not_output (h : i.Inputless s) (hl : s.Laid) {e : Effect}
    (hr : i.Reads s e u) {v : Value} (he : e = .write id v) : ¬ s.IsOutput id := by
  cases hr with
  | binary hop _ _ hdst | ldm hop _ hdst | str hop _ hdst | bisz hop _ hdst =>
    cases he
    exact h.output (by rw [hop]; rfl) _ hdst
  | stm _ _ _ hcell =>
    cases he
    exact (hl.kind_memoryCell hcell).1.not_output
  | undef hop => exact absurd hop h.undef
  | pass | jump | nop | unkn => cases he

end Instruction

lemma Store.IsStorage.isKnown (h : s.IsStorage id) : (s.operand id).isKnown = true := by
  have hst := h.2.2
  unfold Operand.isKnown
  cases hk : (s.operand id).kind with
  | register | memory | constant => rfl
  | input | output => rw [hk] at hst; cases hst

namespace Graph.AllConstant

lemma empty : AllConstant {} := fun _ h => absurd h (Nat.not_lt_zero _)

lemma constant (h : g.AllConstant) (v : Value) : (g.constant v).2.AllConstant := by
  intro n hn
  have hgrows := g.constant_grows v
  rcases g.intern_cases (fun n => n.isConstant && n.value == v) (.constant v) with ⟨hg, -⟩ | hg
  · rw [Graph.constant, hg] at hn ⊢
    exact h n hn
  · rw [Graph.constant, hg, size_push] at hn
    rcases Nat.lt_succ_iff_lt_or_eq.1 hn with hlt | rfl
    · rw [hgrows.node hlt]
      exact h n hlt
    · rw [Graph.constant, hg]
      exact congrArg Node.isConstant (node_push_size g _)

lemma linkCount (h : g.AllConstant) : g.linkCount = 0 := by
  refine List.countP_eq_zero.2 fun n hn => ?_
  obtain ⟨k, hk, rfl⟩ := List.getElem_of_mem hn
  have hlt : k < g.nodes.size := by simpa using hk
  have hnode : g.node k = g.nodes.toList[k] := by
    simp [Graph.node, Array.getD_eq_getD_getElem?, hlt]
  have hc := h k hlt
  rw [hnode] at hc
  unfold Node.isConstant at hc
  unfold Node.derivation?
  split <;> simp_all

end Graph.AllConstant

/-! ### Deciding -/

namespace Tracker

variable {α β : Type}

/-- All that has been recorded is constants, and nothing but looking has been done to the store. -/
structure Sure (s : Store) (p : Tracker × Store) : Prop where
  peeked : s.Peeked p.2
  bound : s.BoundIn p.1.graph
  constant : p.1.graph.AllConstant

/-- A computation that records nothing but constants, and has a result with `Q`. -/
def Certain (s : Store) (x : Looking α) (Q : α → Graph → Prop) : Prop :=
  ∀ p, Sure s p → Sure s (x p).2 ∧ Q (x p).1 (x p).2.1.graph

section Certain

variable {Q : α → Graph → Prop} {R : β → Graph → Prop} {x : Looking α}

lemma certain_pure {a : α} (h : ∀ g, Q a g) : Certain s (pure a) Q := fun _ hp => ⟨hp, h _⟩

lemma Certain.bind {f : α → Looking β} (hx : Certain s x Q)
    (hf : ∀ a, (∃ g, Q a g) → Certain s (f a) R) : Certain s (x >>= f) R :=
  fun p hp => hf (x p).1 ⟨_, (hx p hp).2⟩ (x p).2 (hx p hp).1

lemma Certain.map {f : α → β} (hx : Certain s x Q) (hf : ∀ {a g}, Q a g → R (f a) g) :
    Certain s (x >>= fun a => pure (f a)) R :=
  fun p hp => ⟨(hx p hp).1, hf (hx p hp).2⟩

end Certain

lemma certain_read (hk : (s.operand id).isKnown = true) :
    Certain s (read id) fun r g => r.constant = true ∧ r.node < g.size := by
  intro p hp
  have hop : (p.2.peek id).2.operand id = s.operand id := by
    rw [(p.2.peek_peeked id).operand, hp.peeked.operand]
  have hbound : p.2.BoundIn p.1.graph := by
    intro id n hn
    rw [hp.peeked.operand] at hn
    exact hp.bound hn
  have hof := read_of id hbound
  have hlooked := looks_read id p
  have hconstant : (read id p).2.1.graph.AllConstant := by
    have hgraph : (read id p).2.1.graph = (p.1.resolve (s.operand id) (p.2.shown id)).2.graph := by
      rw [← hop]
      rfl
    rw [hgraph]
    unfold resolve
    cases (s.operand id).node with
    | some n => exact hp.constant
    | none => simpa only [hk, if_true] using hp.constant.constant _
  refine ⟨⟨hp.peeked.trans hlooked.store, fun hn => hlooked.graph.lt (hp.bound hn), hconstant⟩,
    ?_, hof.lt⟩
  rw [hof.constant]
  exact hconstant _ hof.lt

lemma certain_cellAt (hl : s.Laid) :
    Certain s (cellAt id) fun found _ => ∀ cell ∈ found, s.IsStorage cell := by
  intro p hp
  have hlooked := looks_cellAt id p
  have hframe := hp.peeked.sameFrame
  refine ⟨⟨hp.peeked.trans hlooked.store, fun hn => hlooked.graph.lt (hp.bound hn), hp.constant⟩,
    fun cell hcell => ?_⟩
  exact hframe.isStorage.1 (isStorage_of_cellAt (hframe.laid hl) hcell)

end Tracker

/-- A decision that does not derive anything, and gives no node to an output channel. -/
inductive Decision.Plain (s : Store) (g : Graph) : Decision → Prop
  | nothing : Plain s g .nothing
  | void {target : OperandId} : Plain s g (.derive target .nothing)
  | source {target : OperandId} {r : Reading} (keeps : ¬ s.IsOutput target)
      (lt : r.node < g.size) : Plain s g (.derive target (.source r))
  | constant {target : OperandId} {v : Value} (keeps : ¬ s.IsOutput target) :
      Plain s g (.derive target (.constant v))

lemma Decision.Plain.ne_branch (h : d.Plain s g) (taken : Bool) (pc x : Reading) :
    d ≠ .branch taken pc x := by
  cases h <;> exact nofun

lemma Decision.plain_ofBinary {target : OperandId} (op : BinaryOp) {x y : Reading}
    (hx : x.constant = true) (hy : y.constant = true) (hout : ¬ s.IsOutput target) :
    Decision.Plain s g (.derive target (.ofBinary op x y)) := by
  have hfolds := Outcome.folds op x y
  generalize Outcome.ofBinary op x y = o at hfolds
  cases hfolds with
  | folded => exact .constant hout
  | undefined => exact .void
  | same hu | cancelled hu => exact absurd ⟨hx, hy⟩ hu
  | neutralLeft _ _ hr | absorbedLeft _ _ hr | linkedRight _ _ hr | linked _ _ hr =>
    rw [hy] at hr
    cases hr
  | neutralRight _ hl | absorbedRight _ hl | linkedLeft _ hl =>
    rw [hx] at hl
    cases hl

lemma Tracker.certain_plan (hl : s.Laid) (hi : i.Inputless s) (hw : i.SkipsWritten s) :
    Certain s (plan i) fun d g => d.Plain s g := by
  have hread : ∀ {slot id}, i.opcode ≠ .ldm → slot ≠ .dst → i.id? slot = some id →
      Certain s (read id) fun r g => r.constant = true ∧ r.node < g.size :=
    fun hop hslot hid => certain_read (hi.isKnown hw hop hslot hid)
  unfold plan
  split
  · next op a b dst hop ha hb hdst =>
    have hout := hi.output (by rw [hop]; rfl) dst hdst
    refine (hread (by simp [hop]) (by decide) ha).bind fun x ⟨_, hx⟩ => ?_
    refine (hread (by simp [hop]) (by decide) hb).map fun hy => ?_
    exact Decision.plain_ofBinary op hx.1 hy.1 hout
  · next a dst hop ha hdst =>
    have hout := hi.output (by rw [hop]; rfl) dst hdst
    refine (certain_cellAt hl).bind fun found ⟨_, hfound⟩ => ?_
    cases found with
    | none => exact certain_pure fun _ => .nothing
    | some cell =>
      exact (certain_read (hfound cell rfl).isKnown).map fun hr => .source hout hr.2
  · next a dst hop ha hdst =>
    refine (certain_cellAt hl).bind fun found ⟨_, hfound⟩ => ?_
    cases found with
    | none => exact certain_pure fun _ => .nothing
    | some cell =>
      exact (hread (by simp [hop]) (by decide) ha).map fun hr =>
        .source (hfound cell rfl).not_output hr.2
  · next a dst hop ha hdst =>
    have hout := hi.output (by rw [hop]; rfl) dst hdst
    exact (hread (by simp [hop]) (by decide) ha).map fun hr => .source hout hr.2
  · next a dst hop ha hdst =>
    have hout := hi.output (by rw [hop]; rfl) dst hdst
    refine (hread (by simp [hop]) (by decide) ha).map fun {r g} hr => ?_
    have htest : Outcome.ofTest r = .constant (Value.ofBool (r.value = 0)) := if_pos hr.1
    rw [htest]
    exact .constant hout
  · next a dst hop ha hdst =>
    refine (hread (by simp [hop]) (by decide) ha).bind fun r ⟨_, hr⟩ => ?_
    rw [if_pos hr.1]
    exact certain_pure fun _ => .nothing
  · next hop _ => exact absurd hop hi.undef
  · exact certain_pure fun _ => .nothing

/-! ### Steps -/

namespace Decision.Plain

lemma records {s' : Store} (h : d.Plain s g) (hs : s.SameFrame u) (hr : Records d g u g' s')
    (hc : g.AllConstant) (hb : u.BoundIn g) : g'.AllConstant ∧ s'.BoundIn g' ∧
      ∀ id, (s'.operand id).written = (u.operand id).written := by
  have hbind : ∀ {g : Graph} {target : OperandId} {n : NodeId}, u.BoundIn g → n < g.size →
      (u.bind target n).BoundIn g ∧
        ∀ id, ((u.bind target n).operand id).written = (u.operand id).written := by
    intro g target n hb hlt
    refine ⟨fun {id k} hk => ?_, fun id => ?_⟩
    · rcases Store.node_bind_cases hk with ⟨-, rfl⟩ | ⟨-, hk⟩
      · exact hlt
      · exact hb hk
    · rw [Store.operand_bind]
      split <;> rfl
  cases h with
  | nothing => cases hr; exact ⟨hc, hb, fun _ => rfl⟩
  | void => cases hr; exact ⟨hc, hb, fun _ => rfl⟩
  | source hout hlt =>
    cases hr with
    | source => exact ⟨hc, hbind hb hlt⟩
    | copy h => exact absurd (hs.isOutput.1 h) hout
  | @constant target v hout =>
    cases hr with
    | constant =>
      exact ⟨hc.constant v, hbind (fun hn => (g.constant_grows v).lt (hb hn)) (g.constant_lt v)⟩
    | copyConstant h => exact absurd (hs.isOutput.1 h) hout

end Decision.Plain

namespace Tracker

/-- Adopting a decision without a derivation records constants only. -/
lemma allConstant_adopt (t : Tracker) (h : d.Plain s g) (hc : t.graph.AllConstant) :
    (t.adopt u d).graph.AllConstant := by
  cases h with
  | nothing | void => exact hc
  | source => rw [adopt, graph_pendSource]; exact hc
  | constant => rw [adopt, pendConstant, graph_pendSource]; exact hc.constant _

end Tracker

namespace Machine

/-- The machine has recorded nothing but constants, and its program has no input. -/
structure Folded (m : Machine Tracker) : Prop where
  laid : m.store.Laid
  bound : m.store.BoundIn m.observer.graph
  constant : m.observer.graph.AllConstant
  context : m.observer.context = ""
  inputless : ∀ i ∈ m.program, i.Inputless m.store
  skips : ∀ i ∈ m.program, i.SkipsWritten m.store

namespace Folded

lemma next_inputless (h : m.Folded) : m.next.Inputless m.store := by
  rcases m.next_mem with hmem | heq
  · exact h.inputless _ hmem
  · rw [heq]
    exact Instruction.inputless_unknown _

lemma next_skips (h : m.Folded) : m.next.SkipsWritten m.store := by
  rcases m.next_mem with hmem | heq
  · exact h.skips _ hmem
  · rw [heq]
    exact Instruction.skipsWritten_unknown _

lemma planned (h : m.Folded) : Tracker.Sure m.store m.planned.2 ∧
    m.decision.Plain m.store m.planned.2.1.graph :=
  Tracker.certain_plan h.laid h.next_inputless h.next_skips ({ m.observer with pending := none }, _)
    ⟨.refl _, h.bound, h.constant⟩

/-- A step records nothing but constants, whether it faults or not. -/
lemma step (h : m.Folded) : m.step.2.Folded := by
  obtain ⟨hsure, hplain⟩ := h.planned
  have hlooked := m.planned_looked
  have hpending : m.planned.2.1.pending = none := by rw [hlooked.tracker]
  have hcontext : m.adopted.context = "" := by
    rw [adopted, Tracker.context_adopt _ _ hplain.ne_branch, hlooked.tracker]
    exact h.context
  have hcourse := m.step_course
  have hframe := hcourse.sameFrame
  have hprogram := hcourse.program
  generalize m.step.1 = r at hcourse
  generalize m.step.2 = m' at hcourse hframe hprogram ⊢
  -- the operands that are not written to keep their mark
  have hrest : (∀ {id}, m.store.IsOutput id →
      (m'.store.operand id).written = (m.store.operand id).written) →
      (∀ i ∈ m'.program, i.Inputless m'.store) ∧ ∀ i ∈ m'.program, i.SkipsWritten m'.store := by
    intro hw
    rw [hprogram]
    exact ⟨fun i hi => (h.inputless i hi).sameFrame hframe,
      fun i hi => (h.skips i hi).sameFrame hframe hw⟩
  have hnot : ∀ {id}, m.store.IsOutput id → ¬ m.store.IsInput id := by
    rintro id ⟨c, hc⟩ ⟨c', hc'⟩
    rw [hc] at hc'
    cases hc'
  cases hcourse with
  | @fault f u hst =>
    have hsteady := hsure.peeked.steady.trans hst
    obtain ⟨hi, hs⟩ := hrest fun hout => by rw [hsteady.other (hnot hout)]
    refine ⟨hframe.laid h.laid, fun hn => ?_, Tracker.allConstant_adopt _ hplain hsure.constant,
      hcontext, hi, hs⟩
    exact (Tracker.graph_adopt_grows ..).lt (hsure.bound (hsteady.node hn))
  | @done e u v flow hreads hperf =>
    have hfollows := (Instruction.follows_of_perform hperf).1
    have hsteady := hsure.peeked.steady.trans hreads.steady
    have hrecords := Tracker.records_settle hpending m.planned.2.2 m.decision
      fun id => (hfollows.kind id).trans (hreads.steady.kind id)
    have hbound : (advance v flow).BoundIn m.planned.2.1.graph := by
      intro id n hn
      rw [hfollows.node] at hn
      exact hsure.bound (hsteady.node hn)
    obtain ⟨hc, hb, hw⟩ := hplain.records (hsteady.sameFrame.trans hfollows.sameFrame) hrecords
      hsure.constant hbound
    obtain ⟨hi, hs⟩ := hrest fun {id} hout => by
      have hpc : id ≠ Store.pc := by
        rintro rfl
        obtain ⟨c, hc⟩ := hout
        rw [h.laid.kind_pc.2] at hc
        cases hc
      have hwrite : ∀ w, e ≠ .write id w := by
        intro w he
        have hframe' := hsure.peeked.sameFrame
        exact (h.next_inputless.sameFrame hframe').target_not_output (hframe'.laid h.laid) hreads he
          (hframe'.isOutput.2 hout)
      exact (hw id).trans (by rw [hfollows.other hpc hwrite, hsteady.other (hnot hout)])
    refine ⟨hframe.laid h.laid, hb, hc, ?_, hi, hs⟩
    exact (Tracker.context_settle ..).trans hcontext

lemma after (h : m.Folded) (n : Nat) : (m.after n).Folded := by
  induction n with
  | zero => exact h
  | succ n ih => exact ih.step

end Folded

/-- **Programs without input fold**: whichever way a program without input goes, and whether its
steps fault or not, nothing is derived, every node is a constant, every operand that is bound is
bound to a constant, and there is no branch. -/
theorem constants_fold {s : Store} {program : String} (hl : s.Laid) (hu : s.Unbound)
    (hload : loadText { store := s, observer := {} } program = (.ok (), m))
    (hinputless : ∀ i ∈ m.program, i.Inputless m.store)
    (hskips : ∀ i ∈ m.program, i.SkipsWritten m.store) (n : Nat) :
    let m' := m.after n
    m'.observer.graph.linkCount = 0 ∧ m'.observer.graph.AllConstant ∧
      (∀ id k, (m'.store.operand id).node = some k → k < m'.observer.graph.size ∧
        (m'.observer.graph.node k).isConstant = true) ∧ m'.observer.context = "" := by
  intro m'
  obtain ⟨hi, hobserver⟩ := interned_of_loadText hload
  have hfolded : m.Folded := by
    refine ⟨hi.laid hl, fun hn => ?_, ?_, ?_, hinputless, hskips⟩
    · rw [hi.unbound hu] at hn
      cases hn
    · rw [hobserver]
      exact .empty
    · rw [hobserver]
  have hfolded' := hfolded.after n
  exact ⟨hfolded'.constant.linkCount, hfolded'.constant,
    fun id k hk => ⟨hfolded'.bound hk, hfolded'.constant k (hfolded'.bound hk)⟩, hfolded'.context⟩

/-- A loop over the memory that goes on until it is out of range. -/
theorem constants_fold_loop :
    let s : Store :=
      { layout := { registers := ["A"], memorySize := 2, outputs := 1 }
        operands := #[{ kind := .register pcName }, { kind := .register "A" },
          { kind := .memory 0 }, { kind := .memory 1 }, { kind := .output 0 }]
        source := .zero }
    let program := "STM PC, , A\nLDM A, , [0]\nADD A, %1, A\nADD A, OUT0, A\nJCC %1, , %0"
    let m := (loadText { store := s, observer := ({} : Tracker) } program).2
    (s.Laid ∧ s.Unbound ∧ loadText { store := s, observer := {} } program = (.ok (), m) ∧
      (∀ i ∈ m.program, i.Inputless m.store) ∧ ∀ i ∈ m.program, i.SkipsWritten m.store) ∧
      (m.after 10).step.1 ≠ .ok true ∧ (m.after 11).observer.graph.AllConstant := by
  intro s program m
  have hbuild :
      ({ registers := ["A"], memorySize := 2, outputs := 1 } : Config).build = .ok s := rfl
  obtain ⟨hl, hu⟩ := Config.laid_of_build hbuild
  have hload : loadText { store := s, observer := {} } program = (.ok (), m) :=
    Prod.ext (by decide +kernel) rfl
  have hinputless : ∀ i ∈ m.program, i.Inputless m.store := by decide +kernel
  have hskips : ∀ i ∈ m.program, i.SkipsWritten m.store := by decide +kernel
  exact ⟨⟨hl, hu, hload, hinputless, hskips⟩, by decide +kernel,
    (constants_fold hl hu hload hinputless hskips 11).2.1⟩

/-- A program without input does not always fold: what has been written to an output channel before
is not known. -/
theorem constants_may_not_fold :
    ¬ ∀ (s : Store) (program : String) (m : Machine Tracker), s.Laid → s.Unbound →
      loadText { store := s, observer := {} } program = (.ok (), m) →
      (∀ i ∈ m.program, i.Inputless m.store) →
      ∀ n, (m.after n).observer.graph.AllConstant := by
  intro hall
  let s : Store :=
    { layout := { registers := ["A"], outputs := 1 }
      operands := #[{ kind := .register pcName }, { kind := .register "A" },
        { kind := .output 0, value := 5, written := true }]
      source := .zero
      emitted := [⟨0, 5⟩] }
  have hl : s.Laid := ⟨⟨[], rfl⟩, by decide⟩
  have hu : s.Unbound := fun id => match id with
    | 0 | 1 | 2 => rfl
    | _ + 3 => rfl
  have hconstant := hall s "STR OUT0, , A" _ hl hu (Prod.ext (by decide +kernel) rfl)
    (by decide +kernel) 1 0 (by decide +kernel)
  revert hconstant
  decide +kernel

end Machine

end Lineage
