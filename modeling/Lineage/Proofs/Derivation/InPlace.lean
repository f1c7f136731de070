import Lineage.Proofs.Derivation.Convergence
import Lineage.Proofs.Derivation.Tags

/-!
Rounds that are worked in place.

When a loop converges can be told from the instructions of its round. An operand that no instruction
of the round gives a node to keeps its node, so that what is derived from it is found again, and so
is what an operand is derived from itself. A round in which all derivations are from such sources
converges as soon as it comes back to where it started.
-/

namespace Lineage

open Text

variable {g : Graph} {s s' : Store} {p p' q q' : Tracker × Store} {i : Instruction}
  {id a b target : OperandId} {r r' x x' y y' z z' : Reading} {name : String} {op : BinaryOp}
  {kept : OperandId → Prop}

/-! ### Shapes -/

lemma Operator.percent_not_mem_text (op : Operator) : '%' ∉ op.text.toList := by
  have hsymbol : ∀ op : BinaryOp, '%' ∉ op.symbol.toList := by
    intro op
    cases op <;> decide
  have hvalue : ∀ v : Value, '%' ∉ (Value.text v).toList := by
    intro v hmem
    rw [toList_valueText] at hmem
    rcases (intNumeral_chars v.toInt).2 _ hmem with h | h <;> cases h
  cases op with
  | both op => exact hsymbol op
  | left k op | right op k => simp [text, hsymbol, hvalue]
  | jump taken => cases taken <;> decide
  | negate | isZero | copy | undefined => decide

/-- The shape of the node tells whether it is a constant. -/
def Node.Telling (n : Node) : Prop := n.isConstant = false → n.shape.toList.head? ≠ some '%'

namespace Node

lemma telling_constant (v : Value) : (constant v).Telling := nofun

lemma telling_leaf {o : Operand} (h : o.isKnown = false) (v : Value) (external : Bool) :
    Telling ⟨o.name, v, .leaf external⟩ := by
  intro _
  show o.name.toList.head? ≠ some '%'
  rw [Operand.isKnown] at h
  rw [Operand.name, Kind.toList_name]
  cases hk : o.kind with
  | register | constant | memory => rw [hk] at h; cases h
  | input | output => simp [Kind.token, Token.chars]

lemma telling_derived (op : Operator) (v : Value) {d : Derivation} (h : d.label = op.text) :
    Telling ⟨name, v, .derived d⟩ := by
  intro _ hhead
  have hmem : '%' ∈ d.label.toList := List.mem_of_mem_head? hhead
  rw [h] at hmem
  exact op.percent_not_mem_text hmem

lemma head_shape_of_constant {n : Node} (h : n.isConstant = true) :
    n.shape.toList.head? = some '%' := by
  unfold isConstant at h
  unfold shape
  cases ho : n.origin with
  | constant => simp
  | leaf | derived => rw [ho] at h; cases h

/-- Nodes that look the same are both constants, or none of them is. -/
lemma Telling.isConstant_eq {n n' : Node} (h : n.Telling) (h' : n'.Telling)
    (hshape : n'.shape = n.shape) : n'.isConstant = n.isConstant := by
  cases hc : n.isConstant with
  | true =>
    by_contra hc'
    rw [Bool.not_eq_true] at hc'
    exact h' hc' (hshape ▸ head_shape_of_constant hc)
  | false =>
    by_contra hc'
    rw [Bool.not_eq_false] at hc'
    exact h hc (hshape ▸ head_shape_of_constant hc')

end Node

namespace Machine

variable {m : Machine Tracker}

lemma Course.telling {m' : Machine Tracker} {res : Except Fault Bool} (hc : m.Course res m')
    (h : m.observer.graph.All Node.Telling) : m'.observer.graph.All Node.Telling :=
  hc.all h Node.telling_constant (fun _ _ hknown => Node.telling_leaf hknown)
    fun _ _ v op _ hlabel => Node.telling_derived op v hlabel

lemma telling_after (h : m.observer.graph.All Node.Telling) (n : Nat) :
    (m.after n).observer.graph.All Node.Telling := by
  induction n with
  | zero => exact h
  | succ n ih => exact (m.after n).step_course.telling ih

end Machine

/-! ### Readings -/

/-- The second reading is like the first, and counts as the same source of a derivation of the
operand `name`. -/
structure Reading.Alike (g : Graph) (name : String) (r r' : Reading) : Prop where
  operand : r'.operand = r.operand
  value : r'.value = r.value
  constant : r'.constant = r.constant
  node : r.constant = true → r'.node = r.node
  identity : g.identity name r'.link = g.identity name r.link

lemma Graph.Consed.eq_of_node (h : g.Consed) {j k : NodeId} (hj : j < g.size) (hk : k < g.size)
    (hnode : g.node j = g.node k) (hd : (g.node k).derivation? = none) : j = k :=
  h.unique hj hk ((Node.same_of_underived hd).2 hnode)

lemma Node.derivation_of_constant {n : Node} (h : n.isConstant = true) : n.derivation? = none := by
  unfold isConstant at h
  unfold derivation?
  cases ho : n.origin with
  | derived => rw [ho] at h; cases h
  | constant | leaf => rfl

/-- There is one constant of each value. -/
lemma Graph.Consed.eq_of_constant (h : g.Consed) {j k : NodeId} (hj : j < g.size) (hk : k < g.size)
    (hc : (g.node j).isConstant = true) (hc' : (g.node k).isConstant = true)
    (hv : (g.node j).value = (g.node k).value) : j = k :=
  h.eq_of_node hj hk (by rw [h.constant hj hc, h.constant hk hc', hv])
    (Node.derivation_of_constant hc')

namespace Reading.Of

variable (hx : r.Of g s id) (hx' : r'.Of g s' id) (hc : g.Consed) (hv : s.SameValues s')
  (hshown : s'.shown id = s.shown id)
include hx hx' hc hv hshown

/-- What is bound to one node, or to none, is read with one node. -/
lemma node_eq (hn : (s'.operand id).node = (s.operand id).node) : r'.node = r.node := by
  cases hbound : (s.operand id).node with
  | some n => rw [hx.bound hbound, hx'.bound (hn.trans hbound)]
  | none =>
    have hvalue : r'.value = r.value := by rw [hx.value, hx'.value, hshown]
    cases hk : (s.operand id).isKnown with
    | true =>
      obtain ⟨hconst, hval⟩ := hx.known hbound hk
      obtain ⟨hconst', hval'⟩ := hx'.known (hn.trans hbound) ((hv.isKnown id).trans hk)
      exact hc.eq_of_constant hx'.lt hx.lt hconst' hconst (by rw [hval', hvalue, hval])
    | false =>
      have hleaf := hx.leaf hbound hk
      refine hc.eq_of_node hx'.lt hx.lt ?_ (by rw [hleaf]; rfl)
      rw [hleaf, hx'.leaf (hn.trans hbound) ((hv.isKnown id).trans hk), hv.name, hv.isExternal,
        hvalue]

/-- The operand that is derived may be bound to another node, if that looks the same. -/
lemma alike (hg : g.All Node.Telling)
    (hlook : (s'.operand id).node.map g.look = (s.operand id).node.map g.look)
    (hn : (s.operand id).name = name ∨ (s'.operand id).node = (s.operand id).node) :
    r.Alike g name r' := by
  obtain ⟨hvalue, hshape⟩ := Prod.ext_iff.1 (hx.look_eq hx' hc hv hlook hshown)
  replace hvalue : (g.node r'.node).value = (g.node r.node).value := hvalue
  replace hshape : (g.node r'.node).shape = (g.node r.node).shape := hshape
  have hconst : (g.node r'.node).isConstant = (g.node r.node).isConstant :=
    (hg _ hx.lt).isConstant_eq (hg _ hx'.lt) hshape
  have hnode : (g.node r.node).isConstant = true → r'.node = r.node := fun h =>
    hc.eq_of_constant hx'.lt hx.lt (hconst.trans h) h hvalue
  have hname : r'.name = r.name := by rw [hx.name, hx'.name, hv.name]
  refine ⟨by rw [hx.operand, hx'.operand], by rw [hx.value, hx'.value, hshown],
    by rw [hx.constant, hx'.constant, hconst], fun h => hnode (hx.constant ▸ h), ?_⟩
  have hsame : r'.node = r.node → g.identity name r'.link = g.identity name r.link := by
    intro h
    rw [link, link, hname, h]
  rcases hn with hn | hn
  · cases hk : (g.node r.node).isConstant with
    | true => exact hsame (hnode hk)
    | false =>
      -- carried in its operand, of which value and shape count
      have hr : r.name = name := hx.name.trans hn
      simp only [Graph.identity, link, hname, hr, hconst, hk, hvalue, hshape, and_self, if_true]
  · exact hsame (hx.node_eq hx' hc hv hshown hn)

end Reading.Of

/-! ### Outcomes -/

namespace Reading.Alike

lemma sameLinks (h : x.Alike g name x') : g.SameLinks name [x.link] [x'.link] :=
  ⟨by simp, congrArg (fun l => [l]) h.identity⟩

lemma retraces_source (h : x.Alike g (s.operand target).name x') :
    Decision.Retraces g s (.derive target (.source x)) (.derive target (.source x')) :=
  .source h.operand fun _ => h.sameLinks

lemma retraces_derived (h : x.Alike g (s.operand target).name x') (o : Operator) :
    Decision.Retraces g s (.derive target (.derived o [x])) (.derive target (.derived o [x'])) :=
  .derived (congrArg (fun l => [l]) h.operand) h.sameLinks

lemma retraces_ofTest (h : x.Alike g (s.operand target).name x') :
    Decision.Retraces g s (.derive target (.ofTest x)) (.derive target (.ofTest x')) := by
  unfold Outcome.ofTest
  rw [h.constant, h.value]
  split
  · exact .constant
  · exact h.retraces_derived _

lemma retraces_ofConstant (h : x.Alike g (s.operand target).name x') (k : Value) (first : Bool) :
    Decision.Retraces g s (.derive target (.ofConstant op k x first))
      (.derive target (.ofConstant op k x' first)) := by
  unfold Outcome.ofConstant
  split
  · exact h.retraces_source
  · split
    · exact .constant
    · exact h.retraces_derived _

end Reading.Alike

/-- The operation gives a source, or a constant, where both of its sources are one node. -/
def BinaryOp.Compares (op : BinaryOp) : Prop := op = .and ∨ op = .or ∨ op = .xor

lemma retraces_ofBinary (hx : x.Alike g (s.operand target).name x')
    (hy : y.Alike g (s.operand target).name y')
    (hnodes : op.Compares → (x'.node = y'.node ↔ x.node = y.node)) :
    Decision.Retraces g s (.derive target (.ofBinary op x y))
      (.derive target (.ofBinary op x' y')) := by
  have hsource : (x'.node = y'.node ∧ (op = .and ∨ op = .or)) ↔
      (x.node = y.node ∧ (op = .and ∨ op = .or)) :=
    and_congr_left fun h => hnodes (h.elim .inl (.inr ∘ .inl))
  have hzero : (x'.node = y'.node ∧ op = .xor) ↔ (x.node = y.node ∧ op = .xor) :=
    and_congr_left fun h => hnodes (.inr (.inr h))
  unfold Outcome.ofBinary
  simp only [hx.constant, hy.constant, hx.value, hy.value, hsource, hzero]
  split
  · cases op.eval x.value y.value with
    | some v => exact .constant
    | none => exact .void
  · split
    · exact hx.retraces_source
    · split
      · exact .constant
      · split
        · exact hy.retraces_ofConstant ..
        · split
          · exact hx.retraces_ofConstant ..
          · exact .derived (by simp [hx.operand, hy.operand])
              ⟨by simp, by simp [hx.identity, hy.identity]⟩

/-! ### Instructions -/

namespace Instruction

/-- The operand that a step on the instruction may give a node to. -/
def rebinds? (i : Instruction) (s : Store) : Option OperandId :=
  match i.opcode, i.id? .dst with
  | .stm, some dst => (s.memoryCell (s.shown dst)).toOption
  | .jcc, _ => some Store.pc
  | .nop, _ | .unkn, _ => none
  | _, dst => dst

/-- The instruction may derive an operand from a source. Copies are derivations where they leave
through an output channel. -/
inductive Derives (i : Instruction) (s : Store) : OperandId → OperandId → Prop
  | first {op : BinaryOp} {dst a : OperandId} (opcode : i.opcode = .binary op)
      (dst_eq : i.id? .dst = some dst) (a_eq : i.id? .a = some a) : Derives i s dst a
  | second {op : BinaryOp} {dst b : OperandId} (opcode : i.opcode = .binary op)
      (dst_eq : i.id? .dst = some dst) (b_eq : i.id? .b = some b) : Derives i s dst b
  | test {dst a : OperandId} (opcode : i.opcode = .bisz) (dst_eq : i.id? .dst = some dst)
      (a_eq : i.id? .a = some a) : Derives i s dst a
  | jump {a : OperandId} (opcode : i.opcode = .jcc) (a_eq : i.id? .a = some a) :
      Derives i s Store.pc a
  | store {dst a : OperandId} (opcode : i.opcode = .str) (dst_eq : i.id? .dst = some dst)
      (a_eq : i.id? .a = some a) (leaves : s.IsOutput dst) : Derives i s dst a
  | load {dst a cell : OperandId} (opcode : i.opcode = .ldm) (dst_eq : i.id? .dst = some dst)
      (a_eq : i.id? .a = some a) (cell_eq : s.memoryCell (s.shown a) = .ok cell)
      (leaves : s.IsOutput dst) : Derives i s dst cell

/-- The instruction derives an operand from itself and from operands that are kept. Operations that
compare the nodes of two operands do so where the comparison comes out alike. -/
structure InPlace (i : Instruction) (s : Store) (kept : OperandId → Prop) : Prop where
  defined : i.opcode ≠ .undef
  sources : ∀ {target source}, i.Derives s target source → source = target ∨ kept source
  compared : ∀ {op a b}, i.opcode = .binary op → op.Compares → i.id? .a = some a →
    i.id? .b = some b → a = b ∨ (kept a ∧ kept b) ∨
      ∃ id, (id = a ∨ id = b) ∧ (s.operand id).kind.isConstant = true

lemma InPlace.of_binary (hop : i.opcode = .binary op) (ha : i.id? .a = some a)
    (hb : i.id? .b = some b) (hdst : i.id? .dst = some target) (hfirst : a = target ∨ kept a)
    (hsecond : b = target ∨ kept b) (hcompared : op.Compares → a = b ∨ (kept a ∧ kept b) ∨
      ∃ id, (id = a ∨ id = b) ∧ (s.operand id).kind.isConstant = true) : i.InPlace s kept where
  defined := by rw [hop]; exact nofun
  sources h := by
    cases h with
    | first _ hdst' ha' =>
      cases hdst.symm.trans hdst'
      cases ha.symm.trans ha'
      exact hfirst
    | second _ hdst' hb' =>
      cases hdst.symm.trans hdst'
      cases hb.symm.trans hb'
      exact hsecond
    | test hop' | jump hop' | store hop' | load hop' => cases hop.symm.trans hop'
  compared hop' hcompares ha' hb' := by
    cases hop.symm.trans hop'
    cases ha.symm.trans ha'
    cases hb.symm.trans hb'
    exact hcompared hcompares

lemma InPlace.of_jcc (hop : i.opcode = .jcc) (ha : i.id? .a = some a)
    (hsource : a = Store.pc ∨ kept a) : i.InPlace s kept where
  defined := by rw [hop]; exact nofun
  sources h := by
    cases h with
    | jump _ ha' =>
      cases ha.symm.trans ha'
      exact hsource
    | first hop' | second hop' | test hop' | store hop' | load hop' => cases hop.symm.trans hop'
  compared hop' := by cases hop.symm.trans hop'

lemma rebinds_of_plans {res : Decision × Tracker × Store} (h : Tracker.Plans i p res)
    (ht : res.1.target? = some target) : i.rebinds? p.2 = some target := by
  cases h with
  | binary hop _ _ hdst | ldm hop _ hdst | str hop _ hdst | bisz hop _ hdst | undef hop hdst =>
    cases ht
    simp only [rebinds?, hop, hdst]
  | stm hop _ hdst hcell =>
    cases ht
    simp only [rebinds?, hop, hdst, hcell, Except.toOption]
  | branch hop =>
    cases ht
    simp only [rebinds?, hop]
  | outside | known | nothing => cases ht

end Instruction

/-! ### Deciding in place -/

lemma Reading.Of.constant_of_literal {g' : Graph} (hx : r.Of g s id) (hf : Fits g' s)
    (hk : (s.operand id).kind.isConstant = true) : r.constant = true := by
  cases hkind : (s.operand id).kind with
  | constant v =>
    have hw : (s.operand id).isWritable = false := by rw [Operand.isWritable, hkind]
    rw [hx.constant, (hx.known (hf.unbound hw) (by rw [Operand.isKnown, hkind])).1]
  | register | memory | input | output => rw [hkind] at hk; cases hk

/-- Nodes are compared alike if one of them is a constant. -/
lemma Reading.Alike.node_eq_iff (hx : x.Alike g name x') (hy : y.Alike g name y')
    (hxc : x.constant = (g.node x.node).isConstant) (hyc : y.constant = (g.node y.node).isConstant)
    (hxc' : x'.constant = (g.node x'.node).isConstant)
    (hyc' : y'.constant = (g.node y'.node).isConstant)
    (h : x.constant = true ∨ y.constant = true) : x'.node = y'.node ↔ x.node = y.node := by
  by_cases hboth : x.constant = y.constant
  · have hxt : x.constant = true := h.elim id fun hy => hboth.trans hy
    rw [hx.node hxt, hy.node (hboth ▸ hxt)]
  · refine ⟨fun heq => absurd ?_ hboth, fun heq => absurd ?_ hboth⟩
    · rw [← hx.constant, ← hy.constant, hxc', hyc', heq]
    · rw [hxc, hyc, heq]

lemma Tracker.operand_read (id : OperandId) (p : Tracker × Store) :
    (Tracker.read id p).1.operand = some id := by rw [read_eq]

namespace Tracker.Abreast

section Plan

variable (h : Abreast g p p') (hc : g.Consed) (hg : g.All Node.Telling) (hf : Fits p.1.graph p.2)
  (hf' : Fits p'.1.graph p'.2) (hs : p.2.source.Truthful) (hs' : p'.2.source.Truthful)
include hc hf hf' hs hs'

lemma readings (hq : Looked p q) (hq' : Looked p' q') (hqq : Abreast g q q')
    (hshown : p'.2.shown id = p.2.shown id) (hext : (Tracker.read id q).2.1.graph.Extends g) :
    (Tracker.read id q).1.Of g p.2 id ∧ (Tracker.read id q').1.Of g p'.2 id := by
  have hnow : q'.2.shown id = q.2.shown id := by
    rw [hq.store.shown hs, hq'.store.shown hs', hshown]
  have hgraph := (hqq.read hc hnow hext).graph
  refine ⟨(Tracker.read_of_looked hs hf.bound hq id).mono hext, ?_⟩
  have hof := Tracker.read_of_looked hs' hf'.bound hq' id
  rwa [hgraph] at hof

variable (hk : ∀ id, kept id → (p'.2.operand id).node = (p.2.operand id).node)
include h hg hk

lemma alike (hid : id = target ∨ kept id) (hq : Looked p q) (hq' : Looked p' q')
    (hqq : Abreast g q q') (hshown : p'.2.shown id = p.2.shown id)
    (hext : (Tracker.read id q).2.1.graph.Extends g) :
    (Tracker.read id q).1.Alike g (p.2.operand target).name (Tracker.read id q').1 := by
  obtain ⟨hof, hof'⟩ := readings hc hf hf' hs hs' hq hq' hqq hshown hext
  exact hof.alike hof' hc h.values hshown hg (h.looks id)
    (hid.imp (fun heq => by rw [heq]) (hk id))

variable (hl : p.2.Laid) (hshown : i.ShownAlike p.2 p'.2)
  (hext : (Tracker.plan i p).2.1.graph.Extends g) (hi : i.InPlace p.2 kept)
include hshown hext hi

lemma retraces_binary {dst : OperandId} (hop : i.opcode = .binary op) (ha : i.id? .a = some a)
    (hb : i.id? .b = some b) (hdst : i.id? .dst = some dst) :
    (Tracker.plan i p).1.Retraces g p.2 (Tracker.plan i p').1 := by
  rw [plan_binary hop ha hb hdst] at hext
  rw [plan_binary hop ha hb hdst, plan_binary hop ha hb hdst]
  have hxshown := hshown .a (by rw [hop]; rfl) a ha
  have hyshown := hshown .b (by rw [hop]; rfl) b hb
  have hextx : (Tracker.read a p).2.1.graph.Extends g :=
    (looks_read b (Tracker.read a p).2).graph.toExtends.trans hext
  have hxof := readings hc hf hf' hs hs' (.refl p) (.refl p') h hxshown hextx
  have hyof := readings hc hf hf' hs hs' (looks_read a p) (looks_read a p')
    (h.read hc hxshown hextx) hyshown hext
  have hx := h.alike hc hg hf hf' hs hs' hk (hi.sources (.first hop hdst ha)) (.refl p) (.refl p')
    h hxshown hextx
  have hy := h.alike hc hg hf hf' hs hs' hk (hi.sources (.second hop hdst hb)) (looks_read a p)
    (looks_read a p') (h.read hc hxshown hextx) hyshown hext
  refine retraces_ofBinary hx hy fun hcompares => ?_
  rcases hi.compared hop hcompares ha hb with rfl | ⟨hka, hkb⟩ | ⟨id, hid, hliteral⟩
  · -- one operand, and so one node each time
    exact iff_of_true (hyof.2.node_eq hxof.2 hc ⟨rfl, rfl⟩ rfl rfl)
      (hyof.1.node_eq hxof.1 hc ⟨rfl, rfl⟩ rfl rfl)
  · rw [hxof.1.node_eq hxof.2 hc h.values hxshown (hk a hka),
      hyof.1.node_eq hyof.2 hc h.values hyshown (hk b hkb)]
  · refine hx.node_eq_iff hy hxof.1.constant hyof.1.constant hxof.2.constant hyof.2.constant ?_
    rcases hid with rfl | rfl
    · exact .inl (hxof.1.constant_of_literal hf hliteral)
    · exact .inr (hyof.1.constant_of_literal hf hliteral)

include hl

lemma retraces_jcc {dst : OperandId} (hop : i.opcode = .jcc) (ha : i.id? .a = some a)
    (hdst : i.id? .dst = some dst) :
    (Tracker.plan i p).1.Retraces g p.2 (Tracker.plan i p').1 := by
  rw [plan_jcc hop ha hdst] at hext
  rw [plan_jcc hop ha hdst, plan_jcc hop ha hdst]
  have hxshown := hshown .a (by rw [hop]; rfl) a ha
  have hextx : (Tracker.read a p).2.1.graph.Extends g := by
    cases hconst : (Tracker.read a p).1.constant with
    | true => rwa [hconst] at hext
    | false =>
      rw [hconst] at hext
      exact (looks_read Store.pc (Tracker.read a p).2).graph.toExtends.trans hext
  have hx := h.alike hc hg hf hf' hs hs' hk (hi.sources (.jump hop ha)) (.refl p) (.refl p') h
    hxshown hextx
  rw [hx.constant, hx.value]
  cases hconst : (Tracker.read a p).1.constant with
  | true => exact .nothing
  | false =>
    rw [hconst] at hext
    have hpc := h.alike hc hg hf hf' hs hs' hk (.inl rfl) (looks_read a p) (looks_read a p')
      (h.read hc hxshown hextx) (h.values.shown hl.pc_not_input) hext
    exact .branch (by simp [hpc.operand, hx.operand])
      ⟨by simp, by simp [hpc.identity, hx.identity]⟩

/-- An instruction that works in place is decided on as it was before. -/
lemma retraces_plan : (Tracker.plan i p).1.Retraces g p.2 (Tracker.plan i p').1 := by
  have hcell : ∀ {a}, p'.2.shown a = p.2.shown a →
      (Tracker.cellAt a p').1 = (Tracker.cellAt a p).1 := by
    intro a ha
    rw [cellAt_eq, cellAt_eq, ha, h.values.memoryCell]
  obtain ⟨w, hplan⟩ : ∃ w, Tracker.plan i = w := ⟨_, rfl⟩
  have hw := hplan
  unfold Tracker.plan at hw
  split at hw
  · next op a b dst hop ha hb hdst =>
    exact h.retraces_binary hc hg hf hf' hs hs' hk hshown hext hi hop ha hb hdst
  · next a dst hop ha hdst =>
    have haddress := hshown .a (by rw [hop]; rfl) a ha
    rw [plan_ldm hop ha hdst] at hext
    rw [plan_ldm hop ha hdst, plan_ldm hop ha hdst, hcell haddress]
    cases hfound : (Tracker.cellAt a p).1 with
    | none => exact .nothing
    | some cell =>
      rw [hfound] at hext
      have hxshown := h.values.shown (isStorage_of_cellAt hl hfound).not_input
      refine .source (by rw [operand_read, operand_read]) fun hout => ?_
      have hx := h.alike hc hg hf hf' hs hs' hk
        (hi.sources (.load hop hdst ha (memoryCell_of_cellAt hfound) hout)) (looks_cellAt a p)
        (looks_cellAt a p') (h.cellAt a) hxshown hext
      exact hx.sameLinks
  · next a dst hop ha hdst =>
    -- a cell takes over the node of its source, whichever that is
    have haddress := hshown .dst (by rw [hop]; rfl) dst hdst
    rw [plan_stm hop ha hdst, plan_stm hop ha hdst, hcell haddress]
    cases hfound : (Tracker.cellAt dst p).1 with
    | none => exact .nothing
    | some cell =>
      exact .source (by rw [operand_read, operand_read]) fun hout =>
        absurd hout (isStorage_of_cellAt hl hfound).not_output
  · next a dst hop ha hdst =>
    rw [plan_str hop ha hdst] at hext
    rw [plan_str hop ha hdst, plan_str hop ha hdst]
    refine .source (by rw [operand_read, operand_read]) fun hout => ?_
    have hx := h.alike hc hg hf hf' hs hs' hk (hi.sources (.store hop hdst ha hout)) (.refl p)
      (.refl p') h (hshown .a (by rw [hop]; rfl) a ha) hext
    exact hx.sameLinks
  · next a dst hop ha hdst =>
    rw [plan_bisz hop ha hdst] at hext
    rw [plan_bisz hop ha hdst, plan_bisz hop ha hdst]
    have hx := h.alike hc hg hf hf' hs hs' hk (hi.sources (.test hop hdst ha)) (.refl p) (.refl p')
      h (hshown .a (by rw [hop]; rfl) a ha) hext
    exact hx.retraces_ofTest
  · next a dst hop ha hdst =>
    exact h.retraces_jcc hc hg hf hf' hs hs' hk hl hshown hext hi hop ha hdst
  · next dst hop hdst => exact absurd hop hi.defined
  · rw [hplan, ← hw]
    exact .nothing

end Plan

end Tracker.Abreast

/-! ### Rounds -/

lemma Decision.Retraces.target_eq {d d' : Decision} (h : d.Retraces g s d') :
    d'.target? = d.target? := by
  cases h <;> rfl

namespace Machine

variable {m m' : Machine Tracker} {running : Bool}

lemma Fit.node_of_not_target (h : m.Fit) (hok : m.step.1 = .ok running)
    (hid : m.decision.target? ≠ some id) :
    (m.step.2.store.operand id).node = (m.store.operand id).node := by
  obtain ⟨e, u, v, flow, -, -, -, hdone⟩ := h.done_of_ok hok
  obtain ⟨u', v', hsteady, hfollows, hrecords⟩ := hdone.effect
  rw [hrecords.other hid, h.node_eq hsteady hfollows]

/-- An operand that none of some steps decides on keeps its node in them. -/
lemma Fit.node_idle (h : m.Fit) {a n : Nat}
    (hok : ∀ j < n, ∃ running, (m.after (a + j)).step.1 = .ok running)
    (hid : ∀ j < n, (m.after (a + j)).decision.target? ≠ some id) :
    ((m.after (a + n)).store.operand id).node = ((m.after a).store.operand id).node := by
  induction n with
  | zero => rfl
  | succ n ih =>
    obtain ⟨running, hlast⟩ := hok n n.lt_succ_self
    rw [← ih (fun j hj => hok j (Nat.lt_succ_of_lt hj)) fun j hj => hid j (Nat.lt_succ_of_lt hj)]
    exact (h.after (a + n)).node_of_not_target hlast (hid n n.lt_succ_self)

lemma rebinds_of_target (ht : m.decision.target? = some id) :
    m.next.rebinds? m.store = some id := by
  have hplans := Tracker.plans_plan m.next ({ m.observer with pending := none }, m.store)
  have hrebinds := Instruction.rebinds_of_plans hplans ht
  exact hrebinds

/-- A step that works in place retraces the one before it. -/
lemma Retraces.of_inPlace (hfit : m.Fit) (hfit' : m'.Fit) (hr : m.Repeats m') (hc : g.Consed)
    (hg : g.All Node.Telling) (hsep : m.store.source.Separate ∨ m.store.source.Joint)
    (hsrc : m'.store.source = m.store.source)
    (h : Tracker.Abreast g (m.observer, m.store) (m'.observer, m'.store))
    (hext : m.step.2.observer.graph.Extends g) (hi : m.next.InPlace m.store kept)
    (hk : ∀ id, kept id → (m'.store.operand id).node = (m.store.operand id).node) :
    m.Retraces g m' := by
  have hshown := hr.shownAlike hfit hfit' h.values hsep hsrc
  obtain ⟨running, hok, -⟩ := hr.running
  obtain ⟨e, u, v, flow, hreads, hperf, hstep⟩ := done_of_ok hok
  rw [hstep] at hext
  have hplanned : m.planned.2.1.graph.Extends g :=
    (Tracker.graph_adopt_grows ..).toExtends.trans ((Tracker.settle_extends ..).trans hext)
  have hstart : Tracker.Abreast g ({ m.observer with pending := none }, m.store)
      ({ m'.observer with pending := none }, m'.store) :=
    ⟨h.graph, h.values, h.looks, h.context, h.marked⟩
  have hplan := hstart.retraces_plan hc hg hfit.fits hfit'.fits hfit.truthful hfit'.truthful
    hk hfit.laid hshown hplanned hi
  have hdecision : m'.decision =
      (Tracker.plan m.next ({ m'.observer with pending := none }, m'.store)).1 := by
    rw [decision, planned, hr.next]
  rw [Retraces, hdecision]
  exact hplan

/-- **Loops that work in place converge**: a machine that stands where it stood a round before, and
goes through that round again on the same input, adds nothing to its graph, if what the instructions
of the round derive is derived from itself and from operands that none of them gives a node to. -/
theorem rounds_converge_in_place {s : Store} {program : String} (hs : s.source.Truthful)
    (hsep : s.source.Separate ∨ s.source.Joint) (hl : s.Laid) (hu : s.Unbound)
    (hload : loadText { store := s, observer := {} } program = (.ok (), m)) {a n : Nat}
    (hstate : (m.after a).SameState (m.after (a + n)))
    (hrepeats : ∀ j < n, (m.after (a + j)).Repeats (m.after (a + n + j)))
    (hround : ∀ j < n, (m.after (a + j)).next.InPlace (m.after (a + j)).store fun id =>
      ∀ k < n, (m.after (a + k)).next.rebinds? (m.after (a + k)).store ≠ some id) :
    (m.after (a + n + n)).observer.graph = (m.after (a + n)).observer.graph ∧
      (m.after (a + n)).SameState (m.after (a + n + n)) := by
  obtain ⟨hfit, -, hobserver, hsource, -⟩ := fit_of_loadText hs hl hu hload
  have htelling := telling_after (m := m) (by rw [hobserver]; exact .empty) (a + n)
  -- what no instruction of the round gives a node to keeps its node
  have hfirst : ∀ id,
      (∀ k < n, (m.after (a + k)).next.rebinds? (m.after (a + k)).store ≠ some id) →
      ∀ j ≤ n, ((m.after (a + j)).store.operand id).node = ((m.after a).store.operand id).node :=
    fun id hid j hj => hfit.node_idle
      (fun k hk => (hrepeats k (hk.trans_le hj)).running.imp fun _ hok => hok.1)
      fun k hk ht => hid k (hk.trans_le hj) (rebinds_of_target ht)
  refine hfit.abreast_round (by rwa [hsource]) (consed_after hu hload (a + n)) (Nat.le_refl _)
    hstate hrepeats fun j hj habreast hbefore => ?_
  have hext := hfit.extends_after (a + j + 1) (n - (j + 1))
  rw [show a + j + 1 + (n - (j + 1)) = a + n by omega] at hext
  refine .of_inPlace (hfit.after _) (hfit.after _) (hrepeats j hj)
    (consed_after hu hload (a + n)) htelling ?_ ?_ habreast hext (hround j hj) fun id hid => ?_
  · rwa [(m.sameFrame_after _).source, hsource]
  · rw [(m.sameFrame_after _).source, (m.sameFrame_after _).source]
  · -- and so it does in the second round, as far as that retraces the first
    have hsecond : ((m.after (a + n + j)).store.operand id).node =
        ((m.after (a + n)).store.operand id).node := by
      refine hfit.node_idle
        (fun k hk => (hrepeats k (hk.trans hj)).running.imp fun _ hok => hok.2) fun k hk ht => ?_
      rw [(hbefore k hk).target_eq] at ht
      exact hid k (hk.trans hj) (rebinds_of_target ht)
    rw [hsecond, hfirst id hid n (Nat.le_refl n), hfirst id hid j (Nat.le_of_lt hj)]

/-- A register that is masked in each round is derived from itself and a literal, and the jump from
a register that the round leaves alone. -/
theorem rounds_converge_in_place_mask :
    let s : Store :=
      { layout := { registers := ["A", "C"], inputs := 2 }
        operands := #[{ kind := .register pcName }, { kind := .register "A" },
          { kind := .register "C" }, { kind := .input 0 }, { kind := .input 1 }]
        source := .queues [[1], [1]] }
    let program := "STR IN0, , A\nSTR IN1, , C\nAND A, %1, A\nJCC C, , %2"
    let m := (loadText { store := s, observer := ({} : Tracker) } program).2
    (s.source.Truthful ∧ (s.source.Separate ∨ s.source.Joint) ∧ s.Laid ∧ s.Unbound ∧
      loadText { store := s, observer := {} } program = (.ok (), m) ∧
      (m.after 6).SameState (m.after (6 + 2)) ∧
      (∀ j < 2, (m.after (6 + j)).Repeats (m.after (6 + 2 + j))) ∧
      ∀ j < 2, (m.after (6 + j)).next.InPlace (m.after (6 + j)).store fun id =>
        ∀ k < 2, (m.after (6 + k)).next.rebinds? (m.after (6 + k)).store ≠ some id) ∧
      (m.after (6 + 2 + 2)).observer.graph = (m.after (6 + 2)).observer.graph := by
  intro s program m
  have hs : s.source.Truthful := Source.queues_truthful _
  have hsep : s.source.Separate ∨ s.source.Joint := .inl (Source.queues_separate _)
  have hbuild : ({ registers := ["A", "C"], inputs := 2, source := .queues [[1], [1]] } :
      Config).build = .ok s := rfl
  obtain ⟨hl, hu⟩ := Config.laid_of_build hbuild
  have hload : loadText { store := s, observer := {} } program = (.ok (), m) :=
    Prod.ext (by decide +kernel) rfl
  have hstate : (m.after 6).SameState (m.after (6 + 2)) := by decide +kernel
  have hagain : ∀ j < 2, (m.after (6 + 2 + j)).next = (m.after (6 + j)).next ∧
      (m.after (6 + j)).step.1 = .ok true ∧ (m.after (6 + 2 + j)).step.1 = .ok true ∧
      consuming (m.after (6 + j)).step.2.store.reads = consuming (m.after (6 + j)).store.reads ∧
      consuming (m.after (6 + 2 + j)).step.2.store.reads =
        consuming (m.after (6 + 2 + j)).store.reads := by
    decide +kernel
  have hrepeats : ∀ j < 2, (m.after (6 + j)).Repeats (m.after (6 + 2 + j)) := fun j hj =>
    have ⟨hnext, hok, hok', hreads, hreads'⟩ := hagain j hj
    ⟨hnext, ⟨true, hok, hok'⟩, [], hreads, hreads'⟩
  have hmask : (m.after 6).next.opcode = .binary .and ∧ (m.after 6).next.id? .a = some 1 ∧
      (m.after 6).next.id? .b = some 5 ∧ (m.after 6).next.id? .dst = some 1 ∧
      ((m.after 6).store.operand 5).kind.isConstant = true := by
    decide +kernel
  have hjump : (m.after 7).next.opcode = .jcc ∧ (m.after 7).next.id? .a = some 2 := by
    decide +kernel
  have hrebinds : (m.after 6).next.rebinds? (m.after 6).store = some 1 ∧
      (m.after 7).next.rebinds? (m.after 7).store = some Store.pc := by
    decide +kernel
  have hkept : ∀ id, id ≠ 1 → id ≠ Store.pc →
      ∀ k < 2, (m.after (6 + k)).next.rebinds? (m.after (6 + k)).store ≠ some id := by
    intro id hid hpc k hk hsome
    have hcases : k = 0 ∨ k = 1 := by omega
    rcases hcases with rfl | rfl
    · exact hid (Option.some.inj (hsome.symm.trans hrebinds.1))
    · exact hpc (Option.some.inj (hsome.symm.trans hrebinds.2))
  have hround : ∀ j < 2, (m.after (6 + j)).next.InPlace (m.after (6 + j)).store fun id =>
      ∀ k < 2, (m.after (6 + k)).next.rebinds? (m.after (6 + k)).store ≠ some id := by
    intro j hj
    have hcases : j = 0 ∨ j = 1 := by omega
    rcases hcases with rfl | rfl
    · obtain ⟨hop, ha, hb, hdst, hliteral⟩ := hmask
      exact .of_binary hop ha hb hdst (.inl rfl) (.inr (hkept 5 (by decide) (by decide)))
        fun _ => .inr (.inr ⟨5, .inr rfl, hliteral⟩)
    · exact .of_jcc hjump.1 hjump.2 (.inr (hkept 2 (by decide) (by decide)))
  exact ⟨⟨hs, hsep, hl, hu, hload, hstate, hrepeats, hround⟩,
    (rounds_converge_in_place hs hsep hl hu hload hstate hrepeats hround).1⟩

end Machine

end Lineage
