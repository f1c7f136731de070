import Lineage.Derivation.Tracker
import Lineage.Proofs.Derivation.Graph
import Lineage.Proofs.Instruction.Effect
import Lineage.Proofs.Store.Layout

/-!
How a tracker decides.

Deciding looks into the store and adds nodes that are not derived, and that is all. `Planned` sets
the decision on an instruction beside the effect that the instruction then has. The decision rests
on values that are peeked at once, while the effect rests on values that are read one after the
other, so the two can differ where one channel is read twice.
-/

namespace Lineage.Tracker

variable {t : Tracker} {s : Store} {i : Instruction} {p q r : Tracker × Store}

/-! ### Looking -/

/-- The second pair is the first after some looking. -/
structure Looked (p q : Tracker × Store) : Prop where
  tracker : q.1 = { p.1 with graph := q.1.graph }
  graph : p.1.graph.Grows q.1.graph
  store : p.2.Peeked q.2

namespace Looked

lemma refl (p : Tracker × Store) : Looked p p := ⟨rfl, .refl _, .refl _⟩

lemma trans (h : Looked p q) (h' : Looked q r) : Looked p r where
  tracker := by rw [h'.tracker, h.tracker]
  graph := h.graph.trans h'.graph
  store := h.store.trans h'.store

end Looked

lemma resolve_eq (t : Tracker) (o : Operand) (v : Value) :
    (t.resolve o v).2 = { t with graph := (t.resolve o v).2.graph } := by
  unfold resolve
  cases o.node <;> rfl

lemma resolve_grows (t : Tracker) (o : Operand) (v : Value) :
    t.graph.Grows (t.resolve o v).2.graph := by
  unfold resolve
  cases o.node with
  | some n => exact .refl _
  | none =>
    cases hk : o.isKnown with
    | true => simpa only [hk, if_true] using t.graph.constant_grows v
    | false =>
      simpa only [hk, Bool.false_eq_true, if_false] using t.graph.leaf_grows o.name v o.isExternal

def Looks {α : Type} (x : Looking α) : Prop := ∀ p, Looked p (x p).2

lemma looks_pure {α : Type} (a : α) : Looks (pure a : Looking α) := fun p => .refl p

lemma looks_bind {α β : Type} {x : Looking α} {f : α → Looking β} (hx : Looks x)
    (hf : ∀ a, Looks (f a)) : Looks (x >>= f) := fun p => (hx p).trans (hf (x p).1 (x p).2)

lemma looks_peek (id : OperandId) : Looks (peek id) :=
  fun p => ⟨rfl, .refl _, p.2.peek_peeked id⟩

lemma looks_read (id : OperandId) : Looks (read id) :=
  fun p => ⟨resolve_eq .., resolve_grows .., p.2.peek_peeked id⟩

lemma looks_cellAt (id : OperandId) : Looks (cellAt id) :=
  looks_bind (looks_peek id) fun _ => looks_bind (fun p => .refl p) fun _ => looks_pure _

lemma looks_plan (i : Instruction) : Looks (plan i) := by
  unfold plan
  split
  · exact looks_bind (looks_read _) fun _ => looks_bind (looks_read _) fun _ => looks_pure _
  · refine looks_bind (looks_cellAt _) fun cell => ?_
    cases cell with
    | some cell => exact looks_bind (looks_read cell) fun _ => looks_pure _
    | none => exact looks_pure _
  · refine looks_bind (looks_cellAt _) fun cell => ?_
    cases cell with
    | some cell => exact looks_bind (looks_read _) fun _ => looks_pure _
    | none => exact looks_pure _
  · exact looks_bind (looks_read _) fun _ => looks_pure _
  · exact looks_bind (looks_read _) fun _ => looks_pure _
  · refine looks_bind (looks_read _) fun condition => ?_
    cases hc : condition.constant with
    | true => exact looks_pure _
    | false => exact looks_bind (looks_read _) fun _ => looks_pure _
  · exact looks_pure _
  · exact looks_pure _

lemma cellAt_eq (id : OperandId) (p : Tracker × Store) :
    (cellAt id p).1 = (p.2.memoryCell (p.2.shown id)).toOption := by
  have hl : (p.2.peek id).2.layout = p.2.layout := (p.2.peek_peeked id).layout
  have hm : (p.2.peek id).2.memoryCell (p.2.shown id) = p.2.memoryCell (p.2.shown id) := by
    simp only [Store.memoryCell, hl]
  exact congrArg Except.toOption hm

lemma isStorage_of_cellAt (hl : p.2.Laid) {id cell : OperandId}
    (h : (cellAt id p).1 = some cell) : p.2.IsStorage cell := by
  rw [cellAt_eq] at h
  cases hm : p.2.memoryCell (p.2.shown id) with
  | ok c =>
    rw [hm] at h
    cases h
    exact (hl.kind_memoryCell hm).1
  | error e =>
    rw [hm] at h
    cases h

/-- A reading gives what is shown of the operand, and the node that is found for it. -/
lemma read_eq (id : OperandId) (p : Tracker × Store) : read id p =
    let r := p.1.resolve (p.2.operand id) (p.2.shown id)
    (⟨some id, (p.2.operand id).name, r.1, p.2.shown id, (r.2.graph.node r.1).isConstant⟩,
      (r.2, (p.2.peek id).2)) := by
  rw [← (p.2.peek_peeked id).operand id]
  rfl

/-! ### The plan of each operation -/

section Plan

variable {a b dst : OperandId}

lemma plan_binary {op : BinaryOp} (hop : i.opcode = .binary op) (ha : i.id? .a = some a)
    (hb : i.id? .b = some b) (hdst : i.id? .dst = some dst) (p : Tracker × Store) :
    plan i p = (.derive dst (.ofBinary op (read a p).1 (read b (read a p).2).1),
      (read b (read a p).2).2) := by
  simp only [plan, hop, ha, hb, hdst]
  rfl

lemma plan_ldm (hop : i.opcode = .ldm) (ha : i.id? .a = some a) (hdst : i.id? .dst = some dst)
    (p : Tracker × Store) :
    plan i p = match (cellAt a p).1 with
      | some cell => (.derive dst (.source (read cell (cellAt a p).2).1),
        (read cell (cellAt a p).2).2)
      | none => (.nothing, (cellAt a p).2) := by
  simp only [plan, hop, ha, hdst, bind, StateT.bind]
  generalize cellAt a p = found
  rcases found with ⟨_ | cell, q⟩ <;> rfl

lemma plan_stm (hop : i.opcode = .stm) (ha : i.id? .a = some a) (hdst : i.id? .dst = some dst)
    (p : Tracker × Store) :
    plan i p = match (cellAt dst p).1 with
      | some cell => (.derive cell (.source (read a (cellAt dst p).2).1),
        (read a (cellAt dst p).2).2)
      | none => (.nothing, (cellAt dst p).2) := by
  simp only [plan, hop, ha, hdst, bind, StateT.bind]
  generalize cellAt dst p = found
  rcases found with ⟨_ | cell, q⟩ <;> rfl

lemma plan_str (hop : i.opcode = .str) (ha : i.id? .a = some a) (hdst : i.id? .dst = some dst)
    (p : Tracker × Store) :
    plan i p = (.derive dst (.source (read a p).1), (read a p).2) := by
  simp only [plan, hop, ha, hdst]
  rfl

lemma plan_bisz (hop : i.opcode = .bisz) (ha : i.id? .a = some a) (hdst : i.id? .dst = some dst)
    (p : Tracker × Store) :
    plan i p = (.derive dst (.ofTest (read a p).1), (read a p).2) := by
  simp only [plan, hop, ha, hdst]
  rfl

lemma plan_jcc (hop : i.opcode = .jcc) (ha : i.id? .a = some a) (hdst : i.id? .dst = some dst)
    (p : Tracker × Store) :
    plan i p = if (read a p).1.constant then (.nothing, (read a p).2)
      else (.branch ((read a p).1.value ≠ 0) (read Store.pc (read a p).2).1 (read a p).1,
        (read Store.pc (read a p).2).2) := by
  simp only [plan, hop, ha, hdst, bind, StateT.bind]
  generalize read a p = condition
  rcases condition with ⟨condition, q⟩
  cases hc : condition.constant <;> simp only [hc] <;> rfl

lemma plan_undef (hop : i.opcode = .undef) (hdst : i.id? .dst = some dst) (p : Tracker × Store) :
    plan i p = (.derive dst (.derived .undefined []), p) := by
  simp only [plan, hop, hdst]
  rfl

lemma plan_jcc_of_none (hop : i.opcode = .jcc) (hdst : i.id? .dst = none)
    (p : Tracker × Store) : plan i p = (.nothing, p) := by
  simp only [plan, hop, hdst]
  cases i.id? .a <;> rfl

lemma plan_idle (hop : i.opcode = .nop ∨ i.opcode = .unkn) (p : Tracker × Store) :
    plan i p = (.nothing, p) := by
  rcases hop with hop | hop <;> simp only [plan, hop] <;> rfl

end Plan

end Lineage.Tracker

namespace Lineage

variable {g g' : Graph} {s u : Store} {id : OperandId} {i : Instruction}

/-! ### Readings -/

/-- The bound nodes are nodes of the graph. -/
def Store.BoundIn (s : Store) (g : Graph) : Prop :=
  ∀ {id n}, (s.operand id).node = some n → n < g.size

/-- The reading is that of an operand of the store, with its node in the graph. -/
structure Reading.Of (g : Graph) (s : Store) (id : OperandId) (r : Reading) : Prop where
  operand : r.operand = some id
  name : r.name = (s.operand id).name
  value : r.value = s.shown id
  lt : r.node < g.size
  constant : r.constant = (g.node r.node).isConstant
  bound : ∀ {n}, (s.operand id).node = some n → r.node = n
  known : (s.operand id).node = none → (s.operand id).isKnown = true →
    (g.node r.node).isConstant = true ∧ (g.node r.node).value = r.value
  leaf : (s.operand id).node = none → (s.operand id).isKnown = false →
    g.node r.node = ⟨(s.operand id).name, r.value, .leaf (s.operand id).isExternal⟩

namespace Reading.Of

variable {r : Reading}

lemma mono (h : r.Of g s id) (hg : g.Extends g') : r.Of g' s id where
  operand := h.operand
  name := h.name
  value := h.value
  lt := hg.lt h.lt
  constant := by rw [hg.node h.lt]; exact h.constant
  bound := h.bound
  known hn hk := by rw [hg.node h.lt]; exact h.known hn hk
  leaf hn hk := by rw [hg.node h.lt]; exact h.leaf hn hk

lemma of_peeked (h : r.Of g u id) (hs : s.source.Truthful) (hp : s.Peeked u) : r.Of g s id where
  operand := h.operand
  name := by rw [h.name, hp.operand]
  value := by rw [h.value, hp.shown hs]
  lt := h.lt
  constant := h.constant
  bound := by rw [← hp.operand]; exact h.bound
  known := by rw [← hp.operand]; exact h.known
  leaf := by rw [← hp.operand]; exact h.leaf

end Reading.Of

namespace Tracker

lemma read_of (id : OperandId) {p : Tracker × Store} (hb : p.2.BoundIn p.1.graph) :
    (read id p).1.Of (read id p).2.1.graph p.2 id := by
  rw [read_eq]
  unfold resolve
  cases hn : (p.2.operand id).node with
  | some n =>
    exact ⟨rfl, rfl, rfl, hb hn, rfl, fun h => Option.some.inj (hn.symm.trans h), by simp [hn],
      by simp [hn]⟩
  | none =>
    cases hk : (p.2.operand id).isKnown with
    | true =>
      refine ⟨rfl, rfl, rfl, ?_, rfl, by simp [hn], fun _ _ => ?_, by simp [hk]⟩
      · exact p.1.graph.constant_lt _
      · exact p.1.graph.node_constant _
    | false =>
      refine ⟨rfl, rfl, rfl, ?_, rfl, by simp [hn], by simp [hk], fun _ _ => ?_⟩
      · exact p.1.graph.leaf_lt ..
      · exact p.1.graph.node_leaf ..

variable {t : Tracker} {p : Tracker × Store}

/-- A reading taken after some looking is one from before it. -/
lemma read_of_looked (hs : s.source.Truthful) (hb : s.BoundIn t.graph) (h : Looked (t, s) p)
    (id : OperandId) : (read id p).1.Of (read id p).2.1.graph s id := by
  have hb' : p.2.BoundIn p.1.graph := by
    intro id n hn
    rw [h.store.operand] at hn
    exact h.graph.lt (hb hn)
  exact (read_of id hb').of_peeked hs h.store

end Tracker

/-! ### Decisions -/

def Tracker.readings (t : Tracker) (s : Store) (a b : OperandId) : Reading × Reading :=
  ((read a (t, s)).1, (read b (read a (t, s)).2).1)

/-- The decision on an instruction, with the effect that the instruction has in the end. -/
inductive Planned (i : Instruction) (t : Tracker) (s : Store) (g : Graph) :
    Decision → Effect → Prop
  | binary {op : BinaryOp} {a b dst : OperandId} {x y : Reading} {v : Value}
      (opcode : i.opcode = .binary op) (a_eq : i.id? .a = some a) (b_eq : i.id? .b = some b)
      (dst_eq : i.id? .dst = some dst) (readings : t.readings s a b = (x, y)) (x_of : x.Of g s a)
      (y_of : y.Of g s b) (eval : op.eval x.value ((s.read a).2.shown b) = some v) :
      Planned i t s g (.derive dst (.ofBinary op x y)) (.write dst v)
  | ldm {a dst cell : OperandId} {x : Reading} (opcode : i.opcode = .ldm)
      (a_eq : i.id? .a = some a) (dst_eq : i.id? .dst = some dst)
      (cell_eq : s.memoryCell (s.shown a) = .ok cell) (x_of : x.Of g s cell) :
      Planned i t s g (.derive dst (.source x)) (.write dst x.value)
  | stm {a dst planned cell : OperandId} {x : Reading} (opcode : i.opcode = .stm)
      (a_eq : i.id? .a = some a) (dst_eq : i.id? .dst = some dst)
      (planned_eq : s.memoryCell (s.shown dst) = .ok planned)
      (cell_eq : s.memoryCell ((s.read a).2.shown dst) = .ok cell) (x_of : x.Of g s a) :
      Planned i t s g (.derive planned (.source x)) (.write cell x.value)
  | stmAstray {a dst cell : OperandId} {e : AccessError} (opcode : i.opcode = .stm)
      (a_eq : i.id? .a = some a) (dst_eq : i.id? .dst = some dst)
      (planned_eq : s.memoryCell (s.shown dst) = .error e)
      (cell_eq : s.memoryCell ((s.read a).2.shown dst) = .ok cell) :
      Planned i t s g .nothing (.write cell (s.shown a))
  | str {a dst : OperandId} {x : Reading} (opcode : i.opcode = .str) (a_eq : i.id? .a = some a)
      (dst_eq : i.id? .dst = some dst) (x_of : x.Of g s a) :
      Planned i t s g (.derive dst (.source x)) (.write dst x.value)
  | bisz {a dst : OperandId} {x : Reading} (opcode : i.opcode = .bisz) (a_eq : i.id? .a = some a)
      (dst_eq : i.id? .dst = some dst) (x_of : x.Of g s a) :
      Planned i t s g (.derive dst (.ofTest x)) (.write dst (Value.ofBool (x.value = 0)))
  | branch {a : OperandId} {taken : Bool} {pc x : Reading} {e : Effect} (opcode : i.opcode = .jcc)
      (a_eq : i.id? .a = some a) (pc_of : pc.Of g s Store.pc) (x_of : x.Of g s a)
      (constant : x.constant = false) (idle : ∀ target v, e ≠ .write target v) :
      Planned i t s g (.branch taken pc x) e
  | undef {dst : OperandId} (opcode : i.opcode = .undef) (dst_eq : i.id? .dst = some dst) :
      Planned i t s g (.derive dst (.derived .undefined [])) (.write dst 0)
  | known {e : Effect} (opcode : i.opcode = .jcc) (idle : ∀ target v, e ≠ .write target v) :
      Planned i t s g .nothing e
  | nop (opcode : i.opcode = .nop) : Planned i t s g .nothing .idle
  | unkn (opcode : i.opcode = .unkn) : Planned i t s g .nothing .halt

/-- A successful first part of an execution, behind the peeks of the plan. -/
lemma planned_of_reads {t : Tracker} {p : Store} {e : Effect} (hs : s.source.Truthful)
    (hl : s.Laid) (hb : s.BoundIn t.graph) (hp : s.Peeked p) (h : i.Reads p e u) :
    Planned i t s (Tracker.plan i (t, s)).2.1.graph (Tracker.plan i (t, s)).1 e := by
  have hread : ∀ {q}, Tracker.Looked (t, s) q → ∀ id,
      (Tracker.read id q).1.Of (Tracker.read id q).2.1.graph s id :=
    fun hq => Tracker.read_of_looked hs hb hq
  have hfirst : ∀ a, (p.read a).1 = s.shown a := by
    intro a
    rw [(hp.read hs a).1, Store.read_value hs]
  have hsecond : ∀ a b, ((p.read a).2.read b).1 = (s.read a).2.shown b := by
    intro a b
    have hs' : (s.read a).2.source.Truthful := by rwa [(s.read_steady a).source]
    rw [((hp.read hs a).2.read hs' b).1, Store.read_value hs']
  have hcell : ∀ v, p.memoryCell v = s.memoryCell v := hp.steady.memoryCell
  -- a jump on what is read from `a` decides on a branch if that is no constant
  have hjcc : ∀ {a dst : OperandId} {e : Effect}, i.opcode = .jcc → i.id? .a = some a →
      i.id? .dst = some dst → (∀ target v, e ≠ .write target v) →
      Planned i t s (Tracker.plan i (t, s)).2.1.graph (Tracker.plan i (t, s)).1 e := by
    intro a dst e hop ha hdst he
    rw [Tracker.plan_jcc hop ha hdst]
    have hx := hread (.refl _) a
    have hpc := hread (Tracker.looks_read a (t, s)) Store.pc
    cases hc : (Tracker.read a (t, s)).1.constant with
    | true => simpa only [if_true] using .known hop he
    | false =>
      simp only [Bool.false_eq_true, if_false]
      exact .branch hop ha hpc (hx.mono (Tracker.looks_read _ _).graph.toExtends) hc he
  cases h with
  | @binary op a b dst v hop ha hb' hdst heval =>
    rw [Tracker.plan_binary hop ha hb' hdst]
    have hx := hread (.refl _) a
    have hy := hread (Tracker.looks_read a (t, s)) b
    refine .binary hop ha hb' hdst rfl (hx.mono (Tracker.looks_read _ _).graph.toExtends) hy ?_
    rwa [hx.value, ← hfirst, ← hsecond]
  | @ldm a dst cell hop ha hdst hcell' =>
    rw [hcell, hfirst] at hcell'
    have hfound : (Tracker.cellAt a (t, s)).1 = some cell := by
      rw [Tracker.cellAt_eq, hcell']
      rfl
    rw [Tracker.plan_ldm hop ha hdst, hfound]
    have hx := hread (Tracker.looks_cellAt a (t, s)) cell
    rw [hsecond, Store.shown_read (hl.kind_memoryCell hcell').1.not_input, ← hx.value]
    exact .ldm hop ha hdst hcell' hx
  | @stm a dst cell hop ha hdst hcell' =>
    rw [hcell, hsecond] at hcell'
    rw [hfirst, Tracker.plan_stm hop ha hdst, Tracker.cellAt_eq]
    cases hplanned : s.memoryCell (s.shown dst) with
    | ok planned =>
      have hx := hread (Tracker.looks_cellAt dst (t, s)) a
      rw [← hx.value]
      exact .stm hop ha hdst hplanned hcell' hx
    | error e => exact .stmAstray hop ha hdst hplanned hcell'
  | @str a dst hop ha hdst =>
    rw [Tracker.plan_str hop ha hdst, hfirst]
    have hx := hread (.refl _) a
    rw [← hx.value]
    exact .str hop ha hdst hx
  | @bisz a dst hop ha hdst =>
    rw [Tracker.plan_bisz hop ha hdst, hfirst]
    have hx := hread (.refl _) a
    rw [← hx.value]
    exact .bisz hop ha hdst hx
  | @pass a hop ha hz =>
    cases hdst : i.id? .dst with
    | some dst => exact hjcc hop ha hdst (by simp)
    | none =>
      rw [Tracker.plan_jcc_of_none hop hdst]
      exact .known hop (by simp)
  | jump hop ha hdst => exact hjcc hop ha hdst (by simp)
  | @undef dst hop hdst =>
    rw [Tracker.plan_undef hop hdst]
    exact .undef hop hdst
  | nop hop =>
    rw [Tracker.plan_idle (.inl hop)]
    exact .nop hop
  | unkn hop =>
    rw [Tracker.plan_idle (.inr hop)]
    exact .unkn hop

end Lineage
