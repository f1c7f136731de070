import Lineage.Proofs.Derivation.Consing
import Lineage.Proofs.Derivation.Fitting
import Lineage.Proofs.Instruction.Pacing

/-!
Tracking that treads in its own tracks.

A tracker that comes to where it has been before, on operands with the same values and with nodes
that look the same, finds the constants and the leaves that it needs. It finds a derivation too if
that counts as the same, which is not only for the looks to decide: its sources have to be at the
same nodes, unless they were read from the operand that is derived. `Retraces` says so of two
decisions; a decision that retraces another adds nothing to the graph, and leaves nodes that look
the same.
-/

namespace Lineage

variable {g g' : Graph} {s s' u u' : Store} {t t' : Tracker} {p p' q q' : Tracker × Store}
  {id target : OperandId} {i : Instruction} {d d' : Decision} {r r' : Reading} {k k' : NodeId}
  {v : Value} {context name label : String} {ls ls' : List Link}

/-! ### Finding nodes again -/

namespace Graph

/-- The links count as the same in a derivation of the operand `name`, which is not from nothing. -/
structure SameLinks (g : Graph) (name : String) (ls ls' : List Link) : Prop where
  ne : ls ≠ []
  identities : ls'.map (g.identity name) = ls.map (g.identity name)

lemma same_derived (hne : ls ≠ []) : (g.derived context name label ls v).Same
    (g'.derived context name label ls' v) ↔
      (ls.map (g.identity name)).Perm (ls'.map (g'.identity name)) := by
  rw [Node.same_of_derived rfl]
  constructor
  · rintro ⟨d, hd, -, -, hp, -⟩
    cases hd
    exact hp
  · intro hp
    exact ⟨_, rfl, rfl, rfl, hp, rfl, by simpa using hne⟩

namespace Consed

variable (h : g'.Consed)
include h

lemma constant_again (hg : (g.constant v).2.Extends g') :
    g'.constant v = ((g.constant v).1, g') := by
  have hlt := hg.lt (g.constant_lt v)
  obtain ⟨hc, hv⟩ := g.node_constant v
  rw [← hg.node (g.constant_lt v)] at hc hv
  refine (h.puts_constant v).eq_of_same h hlt ?_
  rw [Node.same_of_underived rfl, h.constant hlt hc, hv]

lemma leaf_again {external : Bool} (hg : (g.leaf name v external).2.Extends g') :
    g'.leaf name v external = ((g.leaf name v external).1, g') := by
  have hlt := hg.lt (g.leaf_lt name v external)
  refine (g'.puts_leaf name v external).eq_of_same h hlt ?_
  rw [Node.same_of_underived rfl, hg.node (g.leaf_lt ..), g.node_leaf]

lemma derive_again (hg : (g.derive context name label ls v).2.Extends g')
    (hlt : ∀ l ∈ ls, l.node < g.size) (hlinks : g'.SameLinks name ls ls') :
    g'.derive context name label ls' v = ((g.derive context name label ls v).1, g') := by
  have hextends := (g.derive_extends context name label ls v).trans hg
  have hold := (g.puts_derive context name label ls v).same_iff.2
    ((same_derived hlinks.ne).2 (.refl _))
  rw [← hg.node (g.derive_lt ..)] at hold
  refine (g'.puts_derive context name label ls' v).eq_of_same h (hg.lt (g.derive_lt ..))
    (hold.trans ((same_derived hlinks.ne).2 ?_))
  rw [hlinks.identities, hextends.identities _ hlt]

end Consed

end Graph

/-! ### Readings -/

lemma Reading.Of.look_eq (h : r.Of g s id) (h' : r'.Of g s' id) (hc : g.Consed)
    (hv : s.SameValues s')
    (hlook : (s'.operand id).node.map g.look = (s.operand id).node.map g.look)
    (hshown : s'.shown id = s.shown id) : g.look r'.node = g.look r.node := by
  cases hn : (s.operand id).node with
  | some n =>
    rw [hn] at hlook
    obtain ⟨n', hn', hlook⟩ := Option.map_eq_some_iff.1 hlook
    rw [h.bound hn, h'.bound hn', hlook]
  | none =>
    rw [hn] at hlook
    have hn' := Option.map_eq_none_iff.1 hlook
    have hvalue : r'.value = r.value := by rw [h.value, h'.value, hshown]
    -- an operand without a node is read at a constant or at a leaf, found by what it tells
    have hnode : g.node r'.node = g.node r.node := by
      cases hk : (s.operand id).isKnown with
      | true =>
        obtain ⟨hconst, hval⟩ := h.known hn hk
        obtain ⟨hconst', hval'⟩ := h'.known hn' ((hv.isKnown id).trans hk)
        rw [hc.constant h.lt hconst, hc.constant h'.lt hconst', hval, hval', hvalue]
      | false =>
        rw [h.leaf hn hk, h'.leaf hn' ((hv.isKnown id).trans hk), hv.name, hv.isExternal, hvalue]
    rw [Graph.look, hnode, Graph.look]

lemma Planned.readings_shown {e : Effect} (h : Planned i t s g d e) (hl : s.Laid)
    (hv : s.SameValues s') (hshown : i.ShownAlike s s') (hr : r ∈ d.readings) :
    ∃ id, r.Of g s id ∧ s'.shown id = s.shown id := by
  obtain ⟨id, hof, ⟨slot, hslot, hid⟩ | rfl | ⟨address, hcell⟩⟩ := h.readings_taken hr
  · exact ⟨id, hof, hshown slot hslot id hid⟩
  · exact ⟨_, hof, hv.shown hl.pc_not_input⟩
  · exact ⟨id, hof, hv.shown (hl.kind_memoryCell hcell).1.not_input⟩

/-! ### Decisions -/

/-- The second decision treads in the tracks of the first: it is of the same kind, its readings are
those of the same operands, and what it derives counts as the same. -/
inductive Decision.Retraces (g : Graph) (s : Store) : Decision → Decision → Prop
  | nothing : Retraces g s .nothing .nothing
  | void {target : OperandId} : Retraces g s (.derive target .nothing) (.derive target .nothing)
  | source {target : OperandId} {r r' : Reading} (operand : r'.operand = r.operand)
      (copy : s.IsOutput target → g.SameLinks (s.operand target).name [r.link] [r'.link]) :
      Retraces g s (.derive target (.source r)) (.derive target (.source r'))
  | constant {target : OperandId} {v : Value} :
      Retraces g s (.derive target (.constant v)) (.derive target (.constant v))
  | derived {target : OperandId} {op : Operator} {rs rs' : List Reading}
      (operands : rs'.map Reading.operand = rs.map Reading.operand)
      (links : g.SameLinks (s.operand target).name (rs.map Reading.link)
        (rs'.map Reading.link)) :
      Retraces g s (.derive target (.derived op rs)) (.derive target (.derived op rs'))
  | branch {taken : Bool} {pc x pc' x' : Reading}
      (operands : [pc', x'].map Reading.operand = [pc, x].map Reading.operand)
      (links : g.SameLinks (s.operand Store.pc).name ([pc, x].map Reading.link)
        ([pc', x'].map Reading.link)) :
      Retraces g s (.branch taken pc x) (.branch taken pc' x')

/-- What waits for the effect of an instruction will be found in the graph, or looks the same. The
nodes of the first are below the bound. -/
inductive Pending.Retraces (g : Graph) (s : Store) (bound : Nat) :
    Option Pending → Option Pending → Prop
  | none : Retraces g s bound none none
  | existing {target : OperandId} {k k' : NodeId} (look : g.look k' = g.look k) :
      Retraces g s bound (some (.existing target k)) (some (.existing target k'))
  | derived {target : OperandId} {context label : String} {ls ls' : List Link}
      (lt : ∀ l ∈ ls, l.node < bound) (links : g.SameLinks (s.operand target).name ls ls') :
      Retraces g s bound (some (.derived target context label ls))
        (some (.derived target context label ls'))

lemma Decision.Retraces.sameFrame (h : d.Retraces g s d') (hf : s.SameFrame u) :
    d.Retraces g u d' := by
  cases h with
  | nothing => exact .nothing
  | void => exact .void
  | source hr hcopy =>
    refine .source hr fun hout => ?_
    rw [hf.name]
    exact hcopy (hf.isOutput.1 hout)
  | constant => exact .constant
  | derived hrs hlinks => exact .derived hrs (by rwa [hf.name])
  | branch hrs hlinks => exact .branch hrs (by rwa [hf.name])

lemma Pending.Retraces.sameFrame {bound : Nat} {x x' : Option Pending}
    (h : Pending.Retraces g s bound x x') (hf : s.SameFrame u) :
    Pending.Retraces g u bound x x' := by
  cases h with
  | none => exact .none
  | existing hlook => exact .existing hlook
  | derived hlt hlinks => exact .derived hlt (by rwa [hf.name])

namespace Tracker

/-- The second tracker has recorded the graph, and stands where the first one does: the operands
have the same values and nodes that look the same, in one context. -/
structure Abreast (g : Graph) (p p' : Tracker × Store) : Prop where
  graph : p'.1.graph = g
  values : p.2.SameValues p'.2
  looks : ∀ id, (p'.2.operand id).node.map g.look = (p.2.operand id).node.map g.look
  context : p'.1.context = p.1.context
  marked : p'.1.marked = p.1.marked

namespace Abreast

lemma looked (h : Abreast g p p') (hl : Looked p q) (hl' : Looked p' q') (hg : q'.1.graph = g) :
    Abreast g q q' where
  graph := hg
  values := h.values.peeked hl.store hl'.store
  looks id := by rw [hl.store.operand, hl'.store.operand, h.looks]
  context := by rw [hl.tracker, hl'.tracker]; exact h.context
  marked := by rw [hl.tracker, hl'.tracker]; exact h.marked

lemma node_eq_none (h : Abreast g p p') (hn : (p'.2.operand id).node = none) :
    (p.2.operand id).node = none := by
  have hlook := h.looks id
  rw [hn] at hlook
  exact Option.map_eq_none_iff.1 hlook.symm

/-! ### Deciding again -/

lemma read (h : Abreast g p p') (hc : g.Consed) (hshown : p'.2.shown id = p.2.shown id)
    (hg : (Tracker.read id p).2.1.graph.Extends g) :
    Abreast g (Tracker.read id p).2 (Tracker.read id p').2 := by
  refine h.looked (looks_read id p) (looks_read id p') ?_
  rw [read_eq] at hg ⊢
  rw [hshown]
  replace hg : (p.1.resolve (p.2.operand id) (p.2.shown id)).2.graph.Extends g := hg
  show (p'.1.resolve (p'.2.operand id) (p.2.shown id)).2.graph = g
  unfold resolve at hg ⊢
  -- what an operand without a node asks for is in the graph by now
  cases hn : (p'.2.operand id).node with
  | some n => exact h.graph
  | none =>
    rw [h.node_eq_none hn] at hg
    rw [h.values.isKnown, h.values.name, h.values.isExternal, h.graph]
    cases hk : (p.2.operand id).isKnown with
    | true =>
      simp only [hk, if_true] at hg ⊢
      rw [hc.constant_again hg]
    | false =>
      simp only [hk, Bool.false_eq_true, if_false] at hg ⊢
      rw [hc.leaf_again hg]

lemma cellAt (h : Abreast g p p') (a : OperandId) :
    Abreast g (Tracker.cellAt a p).2 (Tracker.cellAt a p').2 :=
  h.looked (looks_cellAt a p) (looks_cellAt a p') h.graph

/-- The plan of an instruction adds nothing that its plan has not added before. -/
lemma plan (h : Abreast g p p') (hc : g.Consed) (hs : p.2.source.Truthful)
    (hs' : p'.2.source.Truthful) (hl : p.2.Laid) (hshown : i.ShownAlike p.2 p'.2)
    (hg : (Tracker.plan i p).2.1.graph.Extends g)
    (hd : (Tracker.plan i p).1.Retraces g s (Tracker.plan i p').1) :
    Abreast g (Tracker.plan i p).2 (Tracker.plan i p').2 := by
  -- what is shown stays the same while the plan looks
  have hlater : ∀ {q q' id}, Looked p q → Looked p' q' → p'.2.shown id = p.2.shown id →
      q'.2.shown id = q.2.shown id := by
    intro q q' id hq hq' hid
    rw [hq.store.shown hs, hq'.store.shown hs', hid]
  have hcell : ∀ {a}, p'.2.shown a = p.2.shown a →
      (Tracker.cellAt a p').1 = (Tracker.cellAt a p).1 := by
    intro a ha
    rw [cellAt_eq, cellAt_eq, ha, h.values.memoryCell]
  obtain ⟨x, hplan⟩ : ∃ x, Tracker.plan i = x := ⟨_, rfl⟩
  have hx := hplan
  unfold Tracker.plan at hx
  split at hx
  · next op a b dst hop ha hb hdst =>
    rw [plan_binary hop ha hb hdst] at hg
    rw [plan_binary hop ha hb hdst, plan_binary hop ha hb hdst]
    have hshown' : ∀ slot id, slot ≠ .dst → i.id? slot = some id →
        p'.2.shown id = p.2.shown id := fun slot id hslot hid =>
      hshown slot (by rw [hop]; exact decide_eq_true hslot) id hid
    -- the first reading adds no more than the whole plan does
    have h₁ := h.read hc (hshown' .a a (by decide) ha) ((looks_read b _).graph.toExtends.trans hg)
    exact h₁.read hc (hlater (looks_read a p) (looks_read a p') (hshown' .b b (by decide) hb)) hg
  · next a dst hop ha hdst =>
    have ha' := hshown .a (by rw [hop]; rfl) a ha
    have h₁ := h.cellAt a
    rw [plan_ldm hop ha hdst] at hg
    rw [plan_ldm hop ha hdst, plan_ldm hop ha hdst, hcell ha']
    cases hfound : (Tracker.cellAt a p).1 with
    | none => exact h₁
    | some cell =>
      rw [hfound] at hg
      refine h₁.read hc (hlater (looks_cellAt a p) (looks_cellAt a p') ?_) hg
      exact h.values.shown (isStorage_of_cellAt hl hfound).not_input
  · next a dst hop ha hdst =>
    have ha' := hshown .a (by rw [hop]; rfl) a ha
    have hdst' := hshown .dst (by rw [hop]; rfl) dst hdst
    have h₁ := h.cellAt dst
    rw [plan_stm hop ha hdst] at hg
    rw [plan_stm hop ha hdst, plan_stm hop ha hdst, hcell hdst']
    cases hfound : (Tracker.cellAt dst p).1 with
    | none => exact h₁
    | some cell =>
      rw [hfound] at hg
      exact h₁.read hc (hlater (looks_cellAt dst p) (looks_cellAt dst p') ha') hg
  · next a dst hop ha hdst =>
    rw [plan_str hop ha hdst] at hg
    rw [plan_str hop ha hdst, plan_str hop ha hdst]
    exact h.read hc (hshown .a (by rw [hop]; rfl) a ha) hg
  · next a dst hop ha hdst =>
    rw [plan_bisz hop ha hdst] at hg
    rw [plan_bisz hop ha hdst, plan_bisz hop ha hdst]
    exact h.read hc (hshown .a (by rw [hop]; rfl) a ha) hg
  · next a dst hop ha hdst =>
    rw [plan_jcc hop ha hdst] at hg hd
    rw [plan_jcc hop ha hdst] at hd
    rw [plan_jcc hop ha hdst, plan_jcc hop ha hdst]
    have ha' := hshown .a (by rw [hop]; rfl) a ha
    -- the condition is found to be a constant both times or neither time
    cases hconst : (Tracker.read a p).1.constant with
    | true =>
      rw [hconst] at hg hd
      have h₁ := h.read hc ha' hg
      cases hconst' : (Tracker.read a p').1.constant with
      | true => exact h₁
      | false =>
        rw [hconst'] at hd
        cases hd
    | false =>
      rw [hconst] at hg hd
      have h₁ := h.read hc ha' ((looks_read Store.pc _).graph.toExtends.trans hg)
      cases hconst' : (Tracker.read a p').1.constant with
      | true =>
        rw [hconst'] at hd
        cases hd
      | false =>
        refine h₁.read hc (hlater (looks_read a p) (looks_read a p') ?_) hg
        exact h.values.shown hl.pc_not_input
  · next dst hop hdst =>
    rw [plan_undef hop hdst, plan_undef hop hdst]
    exact h
  · rw [hplan, ← hx]
    exact h

end Abreast

/-! ### Adopting again -/

/-- The trackers stand abreast, and what waits for the effect will be found again. -/
structure Poised (g : Graph) (p p' : Tracker × Store) : Prop extends Abreast g p p' where
  pending : Pending.Retraces g p.2 p.1.graph.size p.1.pending p'.1.pending

namespace Abreast

variable {rs rs' : List Reading}

/-- Marking the same operands keeps trackers abreast, whatever waits for the effect. -/
lemma markAll (h : Abreast g p p') (hrs : rs'.map Reading.operand = rs.map Reading.operand)
    (target : OperandId) (x x' : Option Pending) :
    Abreast g ({ p.1.markAll p.2 rs target with pending := x }, p.2)
      ({ p'.1.markAll p'.2 rs' target with pending := x' }, p'.2) where
  graph := (graph_markAll ..).trans h.graph
  values := h.values
  looks := h.looks
  context := by
    show (p'.1.markAll p'.2 rs' target).context = (p.1.markAll p.2 rs target).context
    rw [context_markAll, context_markAll, h.context]
  marked := marked_markAll h.values.kind h.marked hrs

lemma pendDerived (h : Abreast g p p') (op : Operator) (hlt : ∀ r ∈ rs, r.node < p.1.graph.size)
    (hrs : rs'.map Reading.operand = rs.map Reading.operand)
    (hlinks : g.SameLinks (p.2.operand target).name (rs.map Reading.link)
      (rs'.map Reading.link)) :
    Poised g (p.1.pendDerived p.2 target op rs, p.2)
      (p'.1.pendDerived p'.2 target op rs', p'.2) where
  toAbreast := h.markAll hrs target _ _
  pending := by
    simp only [Tracker.pendDerived, graph_markAll, h.context]
    refine .derived (fun l hl => ?_) hlinks
    obtain ⟨r, hr, rfl⟩ := List.mem_map.1 hl
    exact hlt r hr

lemma pendSource (h : Abreast g p p') (hlt : r.node < p.1.graph.size)
    (hr : r'.operand = r.operand) (hlook : g.look r'.node = g.look r.node)
    (hcopy : p.2.IsOutput target →
      g.SameLinks (p.2.operand target).name [r.link] [r'.link]) :
    Poised g (p.1.pendSource p.2 target r, p.2) (p'.1.pendSource p'.2 target r', p'.2) := by
  have hrs : [r'].map Reading.operand = [r].map Reading.operand := congrArg (fun o => [o]) hr
  by_cases hout : p.2.IsOutput target
  · rw [pendSource_of_output hout, pendSource_of_output (h.values.isOutput.2 hout)]
    exact h.pendDerived .copy (by simpa using hlt) hrs (hcopy hout)
  · rw [pendSource_of_not_output hout, pendSource_of_not_output (h.values.isOutput.not.2 hout)]
    exact ⟨h.markAll hrs target _ _, .existing hlook⟩

lemma pendConstant (h : Abreast g p p') (hc : g.Consed)
    (hg : (p.1.graph.constant v).2.Extends g) :
    Poised g (p.1.pendConstant p.2 target v, p.2) (p'.1.pendConstant p'.2 target v, p'.2) := by
  have hagain : p'.1.graph.constant v = ((p.1.graph.constant v).1, g) := by
    rw [h.graph]
    exact hc.constant_again hg
  have hlt := p.1.graph.constant_lt v
  have h₁ : Abreast g ({ p.1 with graph := (p.1.graph.constant v).2 }, p.2)
      ({ p'.1 with graph := g }, p'.2) := ⟨rfl, h.values, h.looks, h.context, h.marked⟩
  simp only [Tracker.pendConstant, hagain, hg.node hlt]
  exact h₁.pendSource hlt rfl rfl fun _ => ⟨by simp, rfl⟩

end Abreast

lemma Poised.branch (h : Poised g p p') (hb : p.2.BoundIn p.1.graph) (hg : p.1.graph.Extends g)
    (taken : Bool) : Poised g (p.1.branch p.2 taken, p.2) (p'.1.branch p'.2 taken, p'.2) := by
  -- a text tells of a node no more than its value and its shape
  have hstate : ∀ id, stateText p'.1.graph (p'.2.operand id) =
      stateText p.1.graph (p.2.operand id) := by
    intro id
    have hlook := h.looks id
    unfold stateText
    rw [h.graph, h.values.name, h.values.recorded, h.values.isKnown]
    cases hn : (p.2.operand id).node with
    | some n =>
      rw [hn] at hlook
      obtain ⟨n', hn', hlook⟩ := Option.map_eq_some_iff.1 hlook
      rw [hg.look (hb hn)] at hlook
      obtain ⟨hvalue, hshape⟩ := Prod.ext_iff.1 hlook
      replace hvalue : (g.node n').value = (p.1.graph.node n).value := hvalue
      replace hshape : (g.node n').shape = (p.1.graph.node n).shape := hshape
      simp only [hn', hvalue, hshape]
    | none =>
      rw [hn] at hlook
      rw [Option.map_eq_none_iff.1 hlook]
  refine ⟨⟨h.graph, h.values, h.looks, ?_, rfl⟩, h.pending⟩
  simp only [Tracker.branch, h.marked, hstate, h.values.pcValue]

/-- A decision that retraces another one is adopted with nothing added. -/
lemma Abreast.adopt (h : Abreast g p p') (hc : g.Consed) (hb : p.2.BoundIn p.1.graph)
    (hp : p.1.pending = none) (hp' : p'.1.pending = none)
    (hlt : ∀ r ∈ d.readings, r.node < p.1.graph.size)
    (hlook : ∀ r ∈ d.readings, ∀ r' ∈ d'.readings, r'.operand = r.operand →
      g.look r'.node = g.look r.node)
    (hd : d.Retraces g p.2 d') (hg : (p.1.adopt p.2 d).graph.Extends g) :
    Poised g (p.1.adopt p.2 d, p.2) (p'.1.adopt p'.2 d', p'.2) := by
  have hidle : Poised g p p' := ⟨h, by rw [hp, hp']; exact .none⟩
  cases hd with
  | nothing | void => exact hidle
  | source hr hcopy =>
    exact h.pendSource (hlt _ (by simp [Decision.readings])) hr
      (hlook _ (by simp [Decision.readings]) _ (by simp [Decision.readings]) hr) hcopy
  | constant =>
    rw [Tracker.adopt, Tracker.pendConstant, graph_pendSource] at hg
    exact h.pendConstant hc hg
  | derived hrs hlinks => exact h.pendDerived _ hlt hrs hlinks
  | @branch taken _ _ _ _ hrs hlinks =>
    have hpoised := h.pendDerived (.jump taken) hlt hrs hlinks
    refine hpoised.branch (fun hn => ?_) ?_ _
    · simp only [Tracker.pendDerived, graph_markAll]
      exact hb hn
    · exact hg

/-! ### Settling again -/

lemma Poised.settle (h : Poised g (t, s) (t', s')) (hc : g.Consed)
    (hg : (t.settle s).1.graph.Extends g) : Abreast g (t.settle s) (t'.settle s') := by
  -- one operand may be bound to nodes that look the same
  have hbind : ∀ {target k k'}, g.look k' = g.look k → ∀ id,
      ((s'.bind target k').operand id).node.map g.look =
        ((s.bind target k).operand id).node.map g.look := by
    intro target k k' hlook id
    rw [Store.operand_bind, Store.operand_bind, h.values.size]
    split
    · exact congrArg some hlook
    · exact h.looks id
  have hpending := h.pending
  generalize hx : t.pending = x at hpending
  generalize hx' : t'.pending = x' at hpending
  have hgraph : t'.graph = g := h.graph
  cases hpending with
  | none =>
    simp only [Tracker.settle, hx, hx']
    exact h.toAbreast
  | @existing target k k' hlook =>
    simp only [Tracker.settle, hx, hx']
    exact ⟨h.graph, h.values.bind .., hbind hlook, h.context, h.marked⟩
  | @derived target context label ls ls' hlt hlinks =>
    simp only [Tracker.settle, hx] at hg ⊢
    have hagain := hc.derive_again hg hlt hlinks
    simp only [hx', hgraph, h.values.name, h.values.recorded, hagain]
    exact ⟨rfl, h.values.bind .., hbind rfl, h.context, h.marked⟩

end Tracker

end Lineage
