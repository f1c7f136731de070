import Lineage.Proofs.Derivation.Marking

/-!
What is true of all nodes.

A property of nodes is true of all that a machine records if it is true of the nodes of constants,
of the leaves for operands that an instruction can get at, and of the derivations of these operands,
which are labelled with operators. The step of a machine is taken apart here once for all such
properties.
-/

namespace Lineage

variable {P : Node → Prop} {g g' : Graph} {s s' : Store} {d : Decision}

namespace Graph

def All (P : Node → Prop) (g : Graph) : Prop := ∀ n < g.size, P (g.node n)

namespace All

lemma empty : All P {} := fun _ hn => absurd hn (Nat.not_lt_zero _)

lemma push (h : g.All P) {n : Node} (hn : P n) : (g.push n).2.All P := by
  intro k hk
  rw [size_push] at hk
  rcases Nat.lt_succ_iff_lt_or_eq.1 hk with hlt | rfl
  · rw [node_push_of_lt n hlt]
    exact h k hlt
  · rw [node_push_size]
    exact hn

lemma intern (h : g.All P) (found : Node → Bool) {n : Node} (hn : P n) :
    (g.intern found n).2.All P := by
  rcases g.intern_cases found n with ⟨hg, -⟩ | hg
  · rwa [hg]
  · rw [hg]
    exact h.push hn

lemma derive (h : g.All P) {context name label : String} {links : List Link} {v : Value}
    (hn : P (g.derived context name label links v)) :
    (g.derive context name label links v).2.All P := by
  rcases g.derive_cases context name label links v with ⟨hg, -⟩ | hg
  · rwa [hg]
  · rw [hg]
    exact h.push hn

lemma resolve {t : Tracker} (h : t.graph.All P) {o : Operand} {v : Value}
    (hconstant : P (.constant v))
    (hleaf : o.isKnown = false → P ⟨o.name, v, .leaf o.isExternal⟩) :
    (t.resolve o v).2.graph.All P := by
  unfold Tracker.resolve
  cases o.node with
  | some n => exact h
  | none =>
    cases ho : o.isKnown with
    | true => exact h.intern _ hconstant
    | false => exact h.intern _ (hleaf ho)

/-- Adopting a decision records a constant at most, -/
lemma adopt {t : Tracker} (h : t.graph.All P) (hconstant : ∀ v, P (.constant v)) (s : Store)
    (d : Decision) : (t.adopt s d).graph.All P := by
  unfold Tracker.adopt
  split
  · exact h
  · rw [Tracker.graph_pendSource]
    exact h
  · rw [Tracker.pendConstant, Tracker.graph_pendSource]
    exact h.intern _ (hconstant _)
  · rw [Tracker.pendDerived, Tracker.graph_markAll]
    exact h
  · exact h
  · rw [Tracker.branch, Tracker.pendDerived, Tracker.graph_markAll]
    exact h

/-- and settling it records a derivation of an operand that it is about. -/
lemma records (h : g.All P) (hr : Records d g s g' s') (hconstant : ∀ v, P (.constant v))
    (hderived : ∀ id ∈ d.marks, ∀ v (op : Operator) dv, dv.label = op.text →
      P ⟨(s.operand id).name, v, .derived dv⟩) : g'.All P := by
  cases hr with
  | nothing | void | source => exact h
  | constant => exact h.intern _ (hconstant _)
  | derived _ hderive | branch _ hderive =>
    rw [hderive]
    exact h.derive (hderived _ List.mem_cons_self _ _ _ rfl)
  | copy _ _ hderive =>
    rw [hderive]
    exact h.derive (hderived _ List.mem_cons_self _ .copy _ rfl)
  | copyConstant _ _ _ hderive =>
    rw [hderive]
    exact (h.intern _ (hconstant _)).derive (hderived _ List.mem_cons_self _ .copy _ rfl)

end All

end Graph

namespace Machine

variable {m m' : Machine Tracker} {r : Except Fault Bool}

lemma all_planned (m : Machine Tracker) (h : m.observer.graph.All P)
    (hconstant : ∀ v, P (.constant v))
    (hleaf : ∀ id, m.next.Reaches m.store id → (m.store.operand id).isKnown = false →
      ∀ v external, P ⟨(m.store.operand id).name, v, .leaf external⟩) :
    m.planned.2.1.graph.All P :=
  (Tracker.plans_plan m.next ({ m.observer with pending := none }, m.store)).graph h
    fun id q hid hq hg => by
      rw [Tracker.read_eq, hq.operand]
      exact hg.resolve (hconstant _) fun hknown => hleaf id hid hknown _ _

/-- A step keeps what is true of constants, and of the leaves and derivations of the operands that
the instruction can get at. -/
lemma Course.all (hc : m.Course r m') (h : m.observer.graph.All P)
    (hconstant : ∀ v, P (.constant v))
    (hleaf : ∀ id, m.next.Reaches m.store id → (m.store.operand id).isKnown = false →
      ∀ v external, P ⟨(m.store.operand id).name, v, .leaf external⟩)
    (hderived : ∀ id, m.next.Reaches m.store id → ∀ v (op : Operator) dv, dv.label = op.text →
      P ⟨(m.store.operand id).name, v, .derived dv⟩) : m'.observer.graph.All P := by
  have hplanned := m.all_planned h hconstant hleaf
  have hframe := hc.sameFrame
  cases hc with
  | fault => exact hplanned.adopt hconstant _ _
  | @done e u v flow =>
    have hsettled := Tracker.settle_sameFrame m.adopted (advance v flow)
    have hkind : ∀ id, ((advance v flow).operand id).kind = (m.store.operand id).kind := fun id =>
      (hsettled.kind id).symm.trans (hframe.kind id)
    have hnone : m.planned.2.1.pending = none := by rw [m.planned_looked.tracker]
    have hrecords := Tracker.records_settle hnone m.planned.2.2 m.decision fun id =>
      (hkind id).trans (m.planned_looked.store.sameFrame.kind id).symm
    refine hplanned.records hrecords hconstant fun id hid v op dv hlabel => ?_
    rw [Operand.name, hkind]
    exact hderived id ((Tracker.plans_plan _ _).reaches hid) v op dv hlabel

end Machine

end Lineage
