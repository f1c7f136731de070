import Lineage.Proofs.Derivation.Ranging
import Lineage.Proofs.Instruction.Naming
import Mathlib.Data.List.Permutation

/-!
The order of the sources of a derivation.

An operation that does not commute records its sources in order. But a derivation that is there
already is found by its sources in any order, and then the operation is bound to that, whatever its
order is. `Exchanged` says when it is the other one, and the order is kept exactly if it is not so.
-/

namespace Lineage

variable {g g' : Graph} {m : Machine Tracker} {s : Store} {x y r : Reading} {k : NodeId}
  {a b dst target : OperandId} {context name label : String} {links : List Link} {v : Value}
  {op : BinaryOp}

namespace Graph

/-! ### What derivations are compared by -/

/-- What is compared of the sources of the node was taken from these sources, in their order. -/
def LinkedAt (g : Graph) (k : NodeId) : Prop :=
  ∀ d, (g.node k).derivation? = some d → ∃ links : List Link, (∀ l ∈ links, l.node < k) ∧
    d.sources = links.map Link.node ∧ d.identities = links.map (g.identity (g.node k).name)

def Linked (g : Graph) : Prop := ∀ k < g.size, g.LinkedAt k

lemma LinkedAt.extend (h : g.LinkedAt k) (hg : g.Extends g') (hk : k < g.size) :
    g'.LinkedAt k := by
  intro d hd
  rw [hg.node hk] at hd ⊢
  obtain ⟨links, hlt, hsources, hidentities⟩ := h d hd
  refine ⟨links, hlt, hsources, ?_⟩
  rw [hidentities, hg.identities _ fun l hl => Nat.lt_trans (hlt l hl) hk]

namespace Linked

lemma empty : Linked {} := fun _ hk => absurd hk (Nat.not_lt_zero _)

/-- Nodes that are looked up do no harm, -/
lemma grows (h : g.Linked) (hg : g.Grows g') : g'.Linked := by
  intro k hk
  rcases Nat.lt_or_ge k g.size with hlt | hge
  · exact (h k hlt).extend hg.toExtends hlt
  · intro d hd
    rw [hg.added hge hk] at hd
    cases hd

/-- nor does a derivation from nodes of the graph. -/
lemma derive (h : g.Linked) (context name label : String) (v : Value)
    (hlinks : ∀ l ∈ links, l.node < g.size) : (g.derive context name label links v).2.Linked := by
  have hg := g.derive_extends context name label links v
  intro k hk
  rcases g.node_derive_cases context name label links v hk with ⟨hlt, -⟩ | ⟨rfl, hnode⟩
  · exact (h k hlt).extend hg hlt
  · intro d hd
    rw [hnode] at hd ⊢
    cases hd
    exact ⟨links, hlinks, rfl, (hg.identities _ hlinks).symm⟩

end Linked

/-! ### Sources in order -/

/-- The node stands for the reading in a derivation of the target: it is the node of the reading, or
the reading is that of the target itself and the node has its value and shape. -/
def StandsFor (g : Graph) (target : OperandId) (r : Reading) (k : NodeId) : Prop :=
  k = r.node ∨ r.operand = some target ∧ g.look k = g.look r.node

/-- There are two sources, the first for the one reading and the second for the other. -/
def InOrder (g : Graph) (target : OperandId) (x y : Reading) : List NodeId → Prop
  | [j, k] => g.StandsFor target x j ∧ g.StandsFor target y k
  | _ => False

instance (target : OperandId) (r : Reading) (k : NodeId) : Decidable (g.StandsFor target r k) :=
  inferInstanceAs (Decidable (_ ∨ _))

instance (target : OperandId) (x y : Reading) : (ks : List NodeId) →
    Decidable (g.InOrder target x y ks)
  | [_, _] => inferInstanceAs (Decidable (_ ∧ _))
  | [] | [_] | _ :: _ :: _ :: _ => .isFalse not_false

/-- A derivation with this context, label and value is there, for which what is compared of the two
readings is the same in the order `y`, `x`, and whose sources are not in the order `x`, `y`. -/
def Exchanged (g : Graph) (context name label : String) (v : Value) (target : OperandId)
    (x y : Reading) : Prop :=
  ∃ k < g.size, ∃ d, (g.node k).derivation? = some d ∧ (g.node k).value = v ∧
    d.context = context ∧ d.label = label ∧
    d.identities = [g.identity name y.link, g.identity name x.link] ∧
    ¬ g.InOrder target x y d.sources

/-- What counts as one in a comparison stands for the same reading. -/
lemma standsFor_of_identity {name' : String} {l : Link}
    (hr : r.name = name → r.operand = some target)
    (hid : g.identity name' l = g.identity name r.link) : g.StandsFor target r l.node := by
  simp only [identity] at hid
  split at hid
  · split at hid
    · next hcarried =>
      simp only [Prod.mk.injEq, Identity.carried.injEq] at hid
      exact .inr ⟨hr hcarried.1, Prod.ext hid.2.1 hid.2.2⟩
    · simp at hid
  · split at hid
    · simp at hid
    · simp only [Prod.mk.injEq, Identity.node.injEq] at hid
      exact .inl hid.2

/-- A derivation that is compared by two readings has sources that stand for them, in the order of
the comparison. -/
lemma LinkedAt.inOrder (h : g.LinkedAt k) {d : Derivation} (hd : (g.node k).derivation? = some d)
    (hx : x.name = name → x.operand = some target) (hy : y.name = name → y.operand = some target)
    (hids : d.identities = [g.identity name x.link, g.identity name y.link]) :
    g.InOrder target x y d.sources := by
  obtain ⟨links, -, hsources, hidentities⟩ := h d hd
  rw [hids] at hidentities
  obtain ⟨l, ls, rfl, hl, hls⟩ := List.map_eq_cons_iff.1 hidentities.symm
  obtain ⟨l', ls', rfl, hl', hls'⟩ := List.map_eq_cons_iff.1 hls
  rw [List.map_eq_nil_iff] at hls'
  subst hls'
  rw [hsources]
  exact ⟨standsFor_of_identity hx hl, standsFor_of_identity hy hl'⟩

/-- A derivation from two readings has sources for them in one order or the other, and in the order
of the readings exactly if it has not been found in the other one. -/
lemma Consed.derive_inOrder (hc : g.Consed) (hg : g.Linked) (context label : String) (v : Value)
    (hx : x.name = name → x.operand = some target) (hy : y.name = name → y.operand = some target) :
    let r := g.derive context name label [x.link, y.link] v
    ∃ d, (r.2.node r.1).derivation? = some d ∧ (r.2.node r.1).value = v ∧ d.label = label ∧
      (r.2.InOrder target x y d.sources ∨ r.2.InOrder target y x d.sources) ∧
      (r.2.InOrder target x y d.sources ↔ ¬ g.Exchanged context name label v target x y) := by
  intro r
  -- a derivation that is exchanged is the one that is found
  have hiff : ∀ {d}, (r.2.node r.1).derivation? = some d → r.2.InOrder target x y d.sources →
      ¬ g.Exchanged context name label v target x y := by
    rintro d hd hin ⟨k, hk, d', hd', rfl, rfl, rfl, hids, hnot⟩
    have hperm : d'.identities.Perm ([x.link, y.link].map (g.identity name)) := by
      rw [hids]
      exact List.Perm.swap _ _ _
    rw [show r = (k, g) from hc.derive_found hk hd' (List.cons_ne_nil _ _) hperm] at hd hin
    rw [hd'] at hd
    cases hd
    exact hnot hin
  rcases g.derive_cases context name label [x.link, y.link] v with ⟨hsame, hlt, hderived⟩ | hpush
  · obtain ⟨d, ho, hv, hlabel, hperm, hcontext⟩ := isDerivedAs_iff.1 hderived
    have hd : (g.node r.1).derivation? = some d := by rw [Node.derivation?, ho]
    replace hsame : r.2 = g := hsame
    rw [hsame] at hiff ⊢
    refine ⟨d, hd, hv, hlabel, ?_⟩
    rcases List.perm_pair.1 hperm with hids | hids
    · have hin := (hg _ hlt).inOrder hd hx hy hids
      exact ⟨.inl hin, hiff hd, fun _ => hin⟩
    · refine ⟨.inr ((hg _ hlt).inOrder hd hy hx hids), hiff hd, fun hnot => ?_⟩
      by_contra hin
      exact hnot ⟨r.1, hlt, d, hd, hv, hcontext, hlabel, hids, hin⟩
  · have hnode : r.2.node r.1 = g.derived context name label [x.link, y.link] v := by
      rw [show r = _ from hpush]
      exact g.node_push_size _
    have hd : (r.2.node r.1).derivation? = some ⟨context, label, [x.node, y.node],
        [x.link, y.link].map (g.identity name)⟩ := by
      rw [hnode]
      rfl
    have hin : r.2.InOrder target x y [x.node, y.node] := ⟨.inl rfl, .inl rfl⟩
    refine ⟨_, hd, ?_, rfl, .inl hin, hiff hd, fun _ => hin⟩
    rw [hnode]
    rfl

end Graph

/-! ### Steps -/

lemma Outcome.ofBinary_of_not_commutes (hop : op.commutes = false) (hx : x.constant = false)
    (hy : y.constant = false) : ofBinary op x y = .derived (.both op) [x, y] := by
  cases op with
  | add | mul | and | or | xor => cases hop
  | sub | div | mod | bsh => simp [ofBinary, hx, hy]

lemma Tracker.linked_settle {t : Tracker} (h : t.graph.Linked)
    (hpending : ∀ x ∈ t.pending, x.Within t.graph.size) (s : Store) :
    (t.settle s).1.graph.Linked := by
  unfold settle
  cases hx : t.pending with
  | none => exact h
  | some x =>
    cases x with
    | existing => exact h
    | derived target context label links => exact h.derive context _ label _ (hpending _ hx)

namespace Machine

def sources (m : Machine Tracker) (a b : OperandId) : Reading × Reading :=
  Tracker.readings { m.observer with pending := none } m.store a b

lemma Twin.linked_step {ρ : Renaming} (ht : Twin ρ m m) (h : m.observer.graph.Linked) :
    m.step.2.observer.graph.Linked := by
  obtain ⟨ρ', hadopted, -, -, -⟩ := ht.adopted
  have hgrows : m.observer.graph.Grows m.adopted.graph :=
    Graph.Grows.trans m.planned_looked.graph (Tracker.graph_adopt_grows ..)
  have hlinked := h.grows hgrows
  have hcourse := m.step_course
  generalize m.step.1 = r at hcourse
  generalize m.step.2 = m' at hcourse ⊢
  cases hcourse with
  | fault => exact hlinked
  | done => exact Tracker.linked_settle hlinked hadopted.within _

lemma linked_after {program : String} (hu : s.Unbound)
    (hload : loadText { store := s, observer := {} } program = (.ok (), m)) (n : Nat) :
    (m.after n).observer.graph.Linked := by
  induction n with
  | zero =>
    show m.observer.graph.Linked
    rw [(interned_of_loadText hload).2]
    exact .empty
  | succ n ih =>
    obtain ⟨ρ, ht⟩ := twin_after hu hload n
    exact ht.linked_step ih

/-- The plan of an operation that does not commute, on two sources that are no constants. -/
lemma planned_of_sources (hop : m.next.opcode = .binary op) (hc : op.commutes = false)
    (ha : m.next.id? .a = some a) (hb : m.next.id? .b = some b)
    (hdst : m.next.id? .dst = some dst) (hbound : m.store.BoundIn m.observer.graph)
    (hs : m.sources a b = (x, y)) (hx : x.constant = false) (hy : y.constant = false) :
    m.decision = .derive dst (.derived (.both op) [x, y]) ∧
      x.Of m.planned.2.1.graph m.store a ∧ y.Of m.planned.2.1.graph (m.store.peek a).2 b := by
  -- the pair that is planned on is kept closed, for the readings are large terms
  obtain ⟨p, hp⟩ : ∃ p, p = (({ m.observer with pending := none } : Tracker), m.store) := ⟨_, rfl⟩
  have hps : p.2 = m.store := by rw [hp]
  have hboundp : p.2.BoundIn p.1.graph := by rwa [hp]
  have hxe : (Tracker.read a p).1 = x := by rw [hp]; exact congrArg Prod.fst hs
  have hye : (Tracker.read b (Tracker.read a p).2).1 = y := by rw [hp]; exact congrArg Prod.snd hs
  have hstore : (Tracker.read a p).2.2 = (m.store.peek a).2 := by rw [Tracker.read_eq, hp]
  have hlooked := Tracker.looks_read a p
  have hx' := Tracker.read_of a hboundp
  have hy' := Tracker.read_of b (p := (Tracker.read a p).2) fun {id k} hk => by
    rw [hlooked.store.operand] at hk
    exact hlooked.graph.lt (hboundp hk)
  rw [hxe, hps] at hx'
  rw [hye, hstore] at hy'
  rw [decision, planned, ← hp, Tracker.plan_binary hop ha hb hdst, hxe, hye,
    Outcome.ofBinary_of_not_commutes hc hx hy]
  exact ⟨rfl, hx'.mono (Tracker.looks_read b _).graph.toExtends, hy'⟩

lemma derived_of_ok {running : Bool} (hstep : m.step.1 = .ok running) {o : Operator}
    {rs : List Reading} (hd : m.decision = .derive dst (.derived o rs))
    (hlt : dst < m.store.operands.size) :
    let r := m.planned.2.1.graph.derive m.observer.context (m.store.operand dst).name o.text
      (rs.map Reading.link) (m.step.2.store.operand dst).recorded
    m.step.2.observer.graph = r.2 ∧ (m.step.2.store.operand dst).node = some r.1 := by
  obtain ⟨e, u, v, flow, hreads, hperf, hm'⟩ := done_of_ok hstep
  have hlooked := m.planned_looked
  have hframe : m.store.SameFrame (advance v flow) :=
    (hlooked.store.sameFrame.trans hreads.steady.sameFrame).trans
      (Instruction.follows_of_perform hperf).1.sameFrame
  have hcontext : m.planned.2.1.context = m.observer.context := by rw [hlooked.tracker]
  have hadopted : m.adopted = m.planned.2.1.pendDerived m.planned.2.2 dst o rs := by
    rw [adopted, hd]
    rfl
  obtain ⟨hgraph, hstore⟩ :=
    Tracker.settle_pendDerived m.planned.2.1 m.planned.2.2 dst o rs (advance v flow)
  rw [← hadopted, hcontext, hframe.name] at hgraph hstore
  have hrecorded : (m.step.2.store.operand dst).recorded =
      ((advance v flow).operand dst).recorded := by
    simp only [hm', hstore, Operand.recorded, Store.kind_bind, Store.value_bind]
  rw [← hframe.size] at hlt
  rw [hrecorded, hm']
  exact ⟨hgraph, hstore ▸ (advance v flow).node_bind_self _ hlt⟩

lemma operand_of_name {program : String} (hl : s.Laid)
    (hload : loadText { store := s, observer := {} } program = (.ok (), m)) (n : Nat)
    {slot : Slot} (hw : (m.after n).next.opcode.writesDst = true)
    (ha : (m.after n).next.id? slot = some a) (hdst : (m.after n).next.id? .dst = some dst)
    (ho : r.operand = some a) (hr : r.name = ((m.after n).store.operand a).name)
    (hname : r.name = ((m.after n).store.operand dst).name) : r.operand = some dst := by
  have hplaced := (placed_of_loadText hl hload).after n
  have hwritable := hplaced.next.writable hw dst hdst
  have hc : ((m.after n).store.operand dst).kind.isConstant = false := by
    unfold Operand.isWritable at hwritable
    cases hk : ((m.after n).store.operand dst).kind with
    | constant v => rw [hk] at hwritable; cases hwritable
    | register | memory | input | output => rfl
  have heq : a = dst :=
    (spoken_next hl hload n).eq_of_name hplaced.laid hdst ha hc (hr.symm.trans hname)
  rw [ho, heq]

/-- **Sources are in order unless a derivation is found in the other order**: when an operation that
does not commute succeeds on two sources that are no constants, its destination is bound to a
derivation by its operator from two sources, which stand for the two readings in one order or the
other. They are in the order of the operation exactly if the graph does not have a derivation by the
operator in the present context, with the value of the destination, that is compared by the same
readings the other way round. -/
theorem sources_in_order_iff {program : String} (hl : s.Laid) (hu : s.Unbound)
    (hload : loadText { store := s, observer := {} } program = (.ok (), m)) (n : Nat)
    {running : Bool} (hstep : (m.after n).step.1 = .ok running)
    (hop : (m.after n).next.opcode = .binary op) (hc : op.commutes = false)
    (ha : (m.after n).next.id? .a = some a) (hb : (m.after n).next.id? .b = some b)
    (hdst : (m.after n).next.id? .dst = some dst) (hs : (m.after n).sources a b = (x, y))
    (hx : x.constant = false) (hy : y.constant = false) :
    let before := m.after n
    let after := m.after (n + 1)
    let looked := before.planned.2.1.graph
    (x.Of looked before.store a ∧ y.Of looked (before.store.peek a).2 b) ∧
      ∃ k d, (after.store.operand dst).node = some k ∧
        (after.observer.graph.node k).derivation? = some d ∧ d.label = op.symbol ∧
        (after.observer.graph.InOrder dst x y d.sources ∨
          after.observer.graph.InOrder dst y x d.sources) ∧
        (after.observer.graph.InOrder dst x y d.sources ↔
          ¬ looked.Exchanged before.observer.context (before.store.operand dst).name op.symbol
            (after.store.operand dst).recorded dst x y) := by
  intro before after looked
  obtain ⟨ρ, ht⟩ := twin_after hu hload n
  have hlooked : looked.Consed := ht.consed_planned
  have hlinked : looked.Linked := (linked_after hu hload n).grows before.planned_looked.graph
  have hplaced := (placed_of_loadText hl hload).after n
  have hlt := hplaced.next.inRange .dst dst hdst
  have hw : before.next.opcode.writesDst = true := by rw [hop]; rfl
  obtain ⟨hd, hxof, hyof⟩ := planned_of_sources hop hc ha hb hdst ht.bound hs hx hy
  obtain ⟨hgraph, hnode⟩ := derived_of_ok hstep hd hlt
  have hyname : y.name = (before.store.operand b).name := by
    rw [hyof.name, (before.store.peek_peeked a).operand]
  -- a reading under the name of the destination was taken from the destination
  obtain ⟨d, hderivation, -, hlabel, horder⟩ := hlooked.derive_inOrder hlinked
    before.observer.context op.symbol (after.store.operand dst).recorded
    (operand_of_name hl hload n hw ha hdst hxof.operand hxof.name)
    (operand_of_name hl hload n hw hb hdst hyof.operand hyname)
  refine ⟨⟨hxof, hyof⟩, _, d, hnode, ?_⟩
  rw [show after.observer.graph = _ from hgraph]
  exact ⟨hderivation, hlabel, horder⟩

/-- The third division finds the second, whose source `A=5` is an earlier one with the same
shape. -/
theorem sources_in_order_iff_carried :
    let s : Store :=
      { layout := { registers := ["A", "B"], inputs := 2 }
        operands := #[{ kind := .register pcName }, { kind := .register "A" },
          { kind := .register "B" }, { kind := .input 0 }, { kind := .input 1 }]
        source := .queues [[5], [1]] }
    let program := "STR IN0, , A\nSTR IN1, , B\nDIV A, B, A\nDIV A, B, A\nDIV A, B, A"
    let m := (loadText { store := s, observer := ({} : Tracker) } program).2
    let x : Reading := ⟨some 1, "A", 3, 5, false⟩
    let y : Reading := ⟨some 2, "B", 1, 1, false⟩
    (s.Laid ∧ s.Unbound ∧ loadText { store := s, observer := {} } program = (.ok (), m) ∧
        (m.after 4).step.1 = .ok true ∧ (m.after 4).next.opcode = .binary .div ∧
        BinaryOp.div.commutes = false ∧ (m.after 4).next.id? .a = some 1 ∧
        (m.after 4).next.id? .b = some 2 ∧ (m.after 4).next.id? .dst = some 1 ∧
        (m.after 4).sources 1 2 = (x, y) ∧ x.constant = false ∧ y.constant = false) ∧
      ((m.after (4 + 1)).store.operand 1).node = some 3 ∧
        ((m.after (4 + 1)).observer.graph.node 3).derivation? =
          some ⟨"", "/", [2, 1], [("A", .carried 5 "/"), ("B", .node 1)]⟩ ∧
        ¬ (m.after 4).planned.2.1.graph.Exchanged "" "A" "/" 5 1 x y := by
  intro s program m x y
  have hbuild : ({ registers := ["A", "B"], inputs := 2, source := .queues [[5], [1]] } :
      Config).build = .ok s := rfl
  obtain ⟨hl, hu⟩ := Config.laid_of_build hbuild
  have hload : loadText { store := s, observer := {} } program = (.ok (), m) :=
    Prod.ext (by decide +kernel) rfl
  have hstep : (m.after 4).step.1 = .ok true ∧ (m.after 4).next.opcode = .binary .div ∧
      (m.after 4).next.id? .a = some 1 ∧ (m.after 4).next.id? .b = some 2 ∧
      (m.after 4).next.id? .dst = some 1 ∧ (m.after 4).sources 1 2 = (x, y) ∧
      (m.after 4).observer.context = "" ∧ ((m.after 4).store.operand 1).name = "A" ∧
      ((m.after (4 + 1)).store.operand 1).recorded = 5 ∧
      ((m.after (4 + 1)).store.operand 1).node = some 3 ∧
      ((m.after (4 + 1)).observer.graph.node 3).derivation? =
        some ⟨"", "/", [2, 1], [("A", .carried 5 "/"), ("B", .node 1)]⟩ ∧
      (m.after (4 + 1)).observer.graph.InOrder 1 x y [2, 1] := by decide +kernel
  obtain ⟨hok, hop, ha, hb, hdst, hs, hcontext, hname, hrecorded, hnode, hderivation, horder⟩ :=
    hstep
  obtain ⟨-, k, d, hk, hd, -, -, hiff⟩ :=
    sources_in_order_iff hl hu hload 4 hok hop rfl ha hb hdst hs rfl rfl
  rw [hnode, Option.some.injEq] at hk
  subst hk
  rw [hderivation, Option.some.injEq] at hd
  subst hd
  rw [hcontext, hname, hrecorded] at hiff
  exact ⟨⟨hl, hu, hload, hok, hop, rfl, ha, hb, hdst, hs, rfl, rfl⟩, hnode, hderivation,
    hiff.1 horder⟩

/-- Sources are not always in order: `DIV B, A, D` is bound to the derivation of `DIV A, B, C`,
since 5 / -5 and -5 / 5 are the same. -/
theorem sources_not_always_in_order :
    ¬ ∀ (c : Config) (s : Store) (program : String) (m : Machine Tracker) (n : Nat) (running : Bool)
      (op : BinaryOp) (a b dst : OperandId) (x y : Reading) (k : NodeId) (d : Derivation),
      c.build = .ok s → loadText { store := s, observer := {} } program = (.ok (), m) →
      (m.after n).step.1 = .ok running → (m.after n).next.opcode = .binary op →
      op.commutes = false → (m.after n).next.id? .a = some a → (m.after n).next.id? .b = some b →
      (m.after n).next.id? .dst = some dst → (m.after n).sources a b = (x, y) →
      x.constant = false → y.constant = false →
      ((m.after (n + 1)).store.operand dst).node = some k →
      ((m.after (n + 1)).observer.graph.node k).derivation? = some d →
      (m.after (n + 1)).observer.graph.InOrder dst x y d.sources := by
  intro hall
  let c : Config :=
    { registers := ["A", "B", "C", "D"], inputs := 2, source := .queues [[5], [-5]] }
  let s : Store :=
    { layout := c.toLayout
      operands := #[{ kind := .register pcName }, { kind := .register "A" },
        { kind := .register "B" }, { kind := .register "C" }, { kind := .register "D" },
        { kind := .input 0 }, { kind := .input 1 }]
      source := .queues [[5], [-5]] }
  let program := "STR IN0, , A\nSTR IN1, , B\nDIV A, B, C\nDIV B, A, D"
  let m := (loadText { store := s, observer := ({} : Tracker) } program).2
  let x : Reading := ⟨some 2, "B", 1, -5, false⟩
  let y : Reading := ⟨some 1, "A", 0, 5, false⟩
  have hload : loadText { store := s, observer := {} } program = (.ok (), m) :=
    Prod.ext (by decide +kernel) rfl
  have hstep : (m.after 3).step.1 = .ok true ∧ (m.after 3).next.opcode = .binary .div ∧
      (m.after 3).next.id? .a = some 2 ∧ (m.after 3).next.id? .b = some 1 ∧
      (m.after 3).next.id? .dst = some 4 ∧ (m.after 3).sources 2 1 = (x, y) ∧
      ((m.after (3 + 1)).store.operand 4).node = some 2 ∧
      ((m.after (3 + 1)).observer.graph.node 2).derivation? =
        some ⟨"", "/", [0, 1], [("A", .node 0), ("B", .node 1)]⟩ ∧
      ¬ (m.after (3 + 1)).observer.graph.InOrder 4 x y [0, 1] := by decide +kernel
  obtain ⟨hok, hop, ha, hb, hdst, hs, hnode, hderivation, horder⟩ := hstep
  exact horder (hall c s program m 3 true .div 2 1 4 x y 2 _ rfl hload hok hop rfl ha hb hdst hs
    rfl rfl hnode hderivation)

end Machine

end Lineage
