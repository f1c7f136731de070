import Lineage.Proofs.Derivation.Fitting
import Lineage.Proofs.Store.Renaming

/-!
Trackers that record the same under other numbers.

Two trackers whose graphs embed decide alike, adopt alike and settle alike, on stores that are bound
to the same nodes under other numbers. The renaming grows with the nodes that are recorded.
-/

namespace Lineage

variable {ρ ρ' : Renaming} {g g' : Graph} {t t' : Tracker} {s : Store} {id target : OperandId}
  {i : Instruction} {d : Decision} {p p' : Tracker × Store} {n : Nat}

/-! ### Decisions -/

def Reading.rename (ρ : Renaming) (r : Reading) : Reading := { r with node := ρ r.node }

def Outcome.rename (ρ : Renaming) : Outcome → Outcome
  | .source r => .source (r.rename ρ)
  | .constant v => .constant v
  | .derived op rs => .derived op (rs.map (Reading.rename ρ))
  | .nothing => .nothing

def Decision.rename (ρ : Renaming) : Decision → Decision
  | .nothing => .nothing
  | .derive target o => .derive target (o.rename ρ)
  | .branch taken pc x => .branch taken (pc.rename ρ) (x.rename ρ)

/-- The decision rests on nodes below the bound. -/
def Decision.Within (d : Decision) (n : Nat) : Prop := ∀ r ∈ d.readings, r.node < n

lemma Decision.within_nothing {n : Nat} : Decision.nothing.Within n := fun r hr => by cases hr

lemma Reading.rename_congr {r : Reading} (hr : r.node < n) (h : ρ.Agrees ρ' n) :
    r.rename ρ' = r.rename ρ := by rw [rename, rename, h _ hr]

namespace Outcome

lemma ofConstant_rename (op : BinaryOp) (k : Value) (r : Reading) (first : Bool) :
    ofConstant op k (r.rename ρ) first = (ofConstant op k r first).rename ρ := by
  unfold ofConstant
  split
  · rfl
  · split <;> rfl

/-- What becomes of an operation does not depend on the numbers of the nodes. -/
lemma ofBinary_rename (op : BinaryOp) (x y : Reading) :
    ofBinary op (x.rename ρ) (y.rename ρ) = (ofBinary op x y).rename ρ := by
  have hnode : (x.rename ρ).node = (y.rename ρ).node ↔ x.node = y.node := ρ.injective.eq_iff
  unfold ofBinary
  simp only [hnode]
  have hx : (x.rename ρ).constant = x.constant ∧ (x.rename ρ).value = x.value := ⟨rfl, rfl⟩
  have hy : (y.rename ρ).constant = y.constant ∧ (y.rename ρ).value = y.value := ⟨rfl, rfl⟩
  rw [hx.1, hx.2, hy.1, hy.2]
  split
  · split <;> rfl
  · split
    · rfl
    · split
      · rfl
      · split
        · exact ofConstant_rename ..
        · split
          · exact ofConstant_rename ..
          · rfl

lemma ofTest_rename (r : Reading) : ofTest (r.rename ρ) = (ofTest r).rename ρ := by
  have hr : (r.rename ρ).constant = r.constant ∧ (r.rename ρ).value = r.value := ⟨rfl, rfl⟩
  unfold ofTest
  rw [hr.1, hr.2]
  split <;> rfl

end Outcome

/-! ### Deciding -/

namespace Tracker

/-- The graph of the second embeds that of the first, and the second store is the first with its
nodes renamed. -/
structure Mirrored (ρ : Renaming) (p p' : Tracker × Store) : Prop where
  graph : Graph.Embeds ρ p.1.graph p'.1.graph
  store : p'.2 = p.2.rename ρ
  bound : p.2.BoundIn p.1.graph

/-- Two computations that keep a pair mirrored, under a renaming that may have grown, and have
results in the relation `A`. -/
def Mirror {α : Type} (ρ : Renaming) (p p' : Tracker × Store) (x x' : Looking α)
    (A : Renaming → Nat → α → α → Prop) : Prop :=
  ∃ ρ', ρ.Agrees ρ' p.1.graph.size ∧ Mirrored ρ' (x p).2 (x' p').2 ∧
    A ρ' (x p).2.1.graph.size (x p).1 (x' p').1

section Mirror

variable {α β : Type} {A : Renaming → Nat → α → α → Prop} {B : Renaming → Nat → β → β → Prop}

lemma mirror_pure {a a' : α} (h : Mirrored ρ p p') (ha : A ρ p.1.graph.size a a') :
    Mirror ρ p p' (pure a) (pure a') A := ⟨ρ, .refl _ _, h, ha⟩

lemma Mirror.bind {x x' : Looking α} {f f' : α → Looking β} (hx : Mirror ρ p p' x x' A)
    (hlooks : Looks x) (hf : ∀ ρ' q q' a a', ρ.Agrees ρ' p.1.graph.size →
      p.1.graph.size ≤ q.1.graph.size → Mirrored ρ' q q' → A ρ' q.1.graph.size a a' →
      Mirror ρ' q q' (f a) (f' a') B) :
    Mirror ρ p p' (x >>= f) (x' >>= f') B := by
  obtain ⟨ρ₁, hagrees₁, hp₁, ha⟩ := hx
  have hle := (hlooks p).graph.size_le
  obtain ⟨ρ₂, hagrees₂, hp₂, hb⟩ := hf ρ₁ _ _ _ _ hagrees₁ hle hp₁ ha
  exact ⟨ρ₂, hagrees₁.trans hagrees₂ hle, hp₂, hb⟩

end Mirror

def SameReading (ρ : Renaming) (n : Nat) (r r' : Reading) : Prop := r' = r.rename ρ ∧ r.node < n

lemma resolve_puts (h : g.Consed) {o : Operand} (hn : o.node = none) (v : Value)
    (hg : t.graph = g) : ∃ x : Node, x.derivation? = none ∧
      (x.isConstant = true → x = .constant x.value) ∧
      (x = if o.isKnown then .constant v else ⟨o.name, v, .leaf o.isExternal⟩) ∧
      g.Puts x ((t.resolve o v).1, (t.resolve o v).2.graph) := by
  refine ⟨_, ?_, ?_, rfl, ?_⟩
  · split <;> rfl
  · split
    · exact fun _ => rfl
    · exact nofun
  · unfold resolve
    rw [hn, hg]
    split
    · exact h.puts_constant v
    · exact g.puts_leaf ..

lemma mirror_resolve (h : Graph.Embeds ρ t.graph t'.graph) {o : Operand}
    (hb : ∀ n, o.node = some n → n < t.graph.size) (v : Value) :
    ∃ ρ', ρ.Agrees ρ' t.graph.size ∧
      Graph.Embeds ρ' (t.resolve o v).2.graph (t'.resolve (o.rename ρ) v).2.graph ∧
      (t'.resolve (o.rename ρ) v).1 = ρ' (t.resolve o v).1 ∧
      (t.resolve o v).1 < (t.resolve o v).2.graph.size := by
  cases hn : o.node with
  | some n =>
    have hr : t.resolve o v = (n, t) := by rw [resolve, hn]
    have hr' : t'.resolve (o.rename ρ) v = (ρ n, t') := by
      rw [resolve, show (o.rename ρ).node = some (ρ n) from by rw [Operand.rename, hn]; rfl]
    rw [hr, hr']
    exact ⟨ρ, .refl _ _, h, rfl, hb n hn⟩
  | none =>
    obtain ⟨x, hx, hc, hxo, hp⟩ := resolve_puts h.consed hn v rfl
    obtain ⟨x', -, -, hxo', hp'⟩ := resolve_puts (t := t') h.consed' (o := o.rename ρ)
      (by rw [Operand.rename, hn]; rfl) v rfl
    have heq : x' = x.rename ρ := by
      rw [Node.rename_of_underived hx, hxo', hxo]
      rfl
    rw [heq] at hp'
    obtain ⟨ρ', hagrees, hembeds, hnode⟩ := h.puts hp hp' hc (Node.within_of_underived hx _)
    exact ⟨ρ', hagrees, hembeds, hnode.symm, hp.lt⟩

lemma mirror_read (h : Mirrored ρ p p') (id : OperandId) :
    Mirror ρ p p' (read id) (read id) SameReading := by
  obtain ⟨hgraph, hstore, hbound⟩ := h
  have hpeeked := p.2.peek_peeked id
  have hread' : read id p' = (let r := p'.1.resolve ((p.2.operand id).rename ρ) (p.2.shown id)
      (⟨some id, (p.2.operand id).name, r.1, p.2.shown id, (r.2.graph.node r.1).isConstant⟩,
        (r.2, (p.2.peek id).2.rename ρ))) := by
    rw [read_eq, hstore, Store.operand_rename, Store.shown, Store.peek_rename]
    rfl
  obtain ⟨ρ', hagrees, hembeds, hnode, hlt⟩ :=
    mirror_resolve hgraph (o := p.2.operand id) (fun n hn => hbound hn) (p.2.shown id)
  have hbound' : (p.2.peek id).2.BoundIn (p.1.resolve (p.2.operand id) (p.2.shown id)).2.graph := by
    intro j n hn
    rw [hpeeked.operand] at hn
    exact (resolve_grows ..).lt (hbound hn)
  refine ⟨ρ', hagrees, ?_, ?_⟩
  · rw [read_eq, hread']
    refine ⟨hembeds, ?_, hbound'⟩
    refine (Store.rename_congr (g := p.1.graph) (fun hn => ?_) hagrees).symm
    rw [hpeeked.operand] at hn
    exact hbound hn
  · rw [read_eq, hread']
    refine ⟨?_, hlt⟩
    simp only [Reading.rename, hnode, hembeds.node hlt, Node.rename_isConstant]

lemma mirror_cellAt (h : Mirrored ρ p p') (id : OperandId) :
    Mirror ρ p p' (cellAt id) (cellAt id) fun _ _ found found' => found = found' := by
  have hpeek : p'.2.peek id = ((p.2.peek id).1, (p.2.peek id).2.rename ρ) := by
    rw [h.store, Store.peek_rename]
  refine ⟨ρ, .refl _ _, ⟨h.graph, ?_, fun hn => ?_⟩, ?_⟩
  · show (p'.2.peek id).2 = (p.2.peek id).2.rename ρ
    rw [hpeek]
  · have hn' : ((p.2.peek id).2.operand _).node = some _ := hn
    rw [(p.2.peek_peeked id).operand] at hn'
    exact h.bound hn'
  · have hshown : p'.2.shown id = p.2.shown id := by rw [Store.shown, hpeek, Store.shown]
    show (cellAt id p).1 = (cellAt id p').1
    rw [cellAt_eq, cellAt_eq, hshown, h.store]
    rfl

lemma mirror_plan (h : Mirrored ρ p p') (i : Instruction) :
    Mirror ρ p p' (plan i) (plan i) fun ρ n d d' => d' = d.rename ρ ∧ d.Within n := by
  have hsource : ∀ {ρ : Renaming} {n : Nat} {dst : OperandId} {x x' : Reading},
      SameReading ρ n x x' → Decision.derive dst (.source x') =
        (Decision.derive dst (.source x)).rename ρ ∧
        (Decision.derive dst (.source x)).Within n := by
    rintro ρ n dst x _ ⟨rfl, hlt⟩
    refine ⟨rfl, fun z hz => ?_⟩
    rw [Decision.readings, List.mem_singleton] at hz
    rwa [hz]
  generalize hx : plan i = x
  unfold plan at hx
  split at hx <;> subst hx
  · next op a b dst _ _ _ _ =>
    refine (mirror_read h a).bind (looks_read a) fun ρ₁ q q' x x' _ _ h₁ hx => ?_
    refine (mirror_read h₁ b).bind (looks_read b) fun ρ₂ r r' y y' hagrees hle h₂ hy => ?_
    obtain ⟨rfl, hxlt⟩ := hx
    obtain ⟨rfl, hylt⟩ := hy
    refine mirror_pure h₂ ⟨?_, fun z hz => ?_⟩
    · -- the node of the first operand keeps its number while the second is read
      rw [← Reading.rename_congr hxlt hagrees, Outcome.ofBinary_rename]
      rfl
    · rcases readings_ofBinary hz with rfl | rfl
      · exact Nat.lt_of_lt_of_le hxlt hle
      · exact hylt
  · next a dst _ _ _ =>
    refine (mirror_cellAt h a).bind (looks_cellAt a) fun ρ₁ q q' found found' _ _ h₁ hfound => ?_
    subst hfound
    cases found with
    | none => exact mirror_pure h₁ ⟨rfl, Decision.within_nothing⟩
    | some cell =>
      refine (mirror_read h₁ cell).bind (looks_read cell) fun ρ₂ r r' x x' _ _ h₂ hx => ?_
      exact mirror_pure h₂ (hsource hx)
  · next a dst _ _ _ =>
    refine (mirror_cellAt h dst).bind (looks_cellAt dst)
      fun ρ₁ q q' found found' _ _ h₁ hfound => ?_
    subst hfound
    cases found with
    | none => exact mirror_pure h₁ ⟨rfl, Decision.within_nothing⟩
    | some cell =>
      refine (mirror_read h₁ a).bind (looks_read a) fun ρ₂ r r' x x' _ _ h₂ hx => ?_
      exact mirror_pure h₂ (hsource hx)
  · next a dst _ _ _ =>
    refine (mirror_read h a).bind (looks_read a) fun ρ₁ q q' x x' _ _ h₁ hx => ?_
    exact mirror_pure h₁ (hsource hx)
  · next a dst _ _ _ =>
    refine (mirror_read h a).bind (looks_read a) fun ρ₁ q q' x x' _ _ h₁ hx => ?_
    obtain ⟨rfl, hxlt⟩ := hx
    refine mirror_pure h₁ ⟨?_, fun z hz => ?_⟩
    · rw [Outcome.ofTest_rename]
      rfl
    · rw [readings_ofTest hz]
      exact hxlt
  · next a dst _ _ _ =>
    refine (mirror_read h a).bind (looks_read a) fun ρ₁ q q' x x' _ _ h₁ hx => ?_
    obtain ⟨rfl, hxlt⟩ := hx
    rw [show (x.rename ρ₁).constant = x.constant from rfl]
    cases x.constant with
    | true => exact mirror_pure h₁ ⟨rfl, Decision.within_nothing⟩
    | false =>
      refine (mirror_read h₁ Store.pc).bind (looks_read Store.pc)
        fun ρ₂ r r' y y' hagrees hle h₂ hy => ?_
      obtain ⟨rfl, hylt⟩ := hy
      refine mirror_pure h₂ ⟨?_, fun z hz => ?_⟩
      · rw [← Reading.rename_congr hxlt hagrees]
        rfl
      · simp only [Decision.readings, List.mem_cons, List.not_mem_nil, or_false] at hz
        rcases hz with rfl | rfl
        · exact hylt
        · exact Nat.lt_of_lt_of_le hxlt hle
  · exact mirror_pure h ⟨rfl, Decision.within_nothing⟩
  · exact mirror_pure h ⟨rfl, Decision.within_nothing⟩

end Tracker

/-! ### Adopting and settling -/

def Link.rename (ρ : Renaming) (l : Link) : Link := { l with node := ρ l.node }

namespace Graph

lemma Embeds.derived_rename (h : Embeds ρ g g') (context name label : String) {links : List Link}
    (v : Value) (hlinks : ∀ l ∈ links, l.node < g.size) :
    (g.derived context name label links v).rename ρ =
      g'.derived context name label (links.map (Link.rename ρ)) v := by
  have hidentity : ∀ l ∈ links, g'.identity name (l.rename ρ) =
      Prod.map id (Identity.rename ρ) (g.identity name l) := by
    intro l hl
    unfold identity
    simp only [Link.rename, h.node (hlinks l hl), Node.rename_isConstant, Node.rename_value,
      Node.rename_shape]
    split <;> rfl
  have hidentities : (links.map (Link.rename ρ)).map (g'.identity name) =
      (links.map (g.identity name)).map (Prod.map id (Identity.rename ρ)) := by
    rw [List.map_map, List.map_map]
    exact List.map_congr_left hidentity
  have hsources : (links.map (Link.rename ρ)).map Link.node = (links.map Link.node).map ρ := by
    rw [List.map_map, List.map_map]
    rfl
  rw [Node.rename_of_derived (d := ⟨context, label, links.map Link.node,
    links.map (g.identity name)⟩) rfl, Graph.derived, Graph.derived, hidentities, hsources]
  rfl

lemma Embeds.derive (h : Embeds ρ g g') (context name label : String) {links : List Link}
    (v : Value) (hlinks : ∀ l ∈ links, l.node < g.size) :
    let x := g.derive context name label links v
    let x' := g'.derive context name label (links.map (Link.rename ρ)) v
    ∃ ρ', ρ.Agrees ρ' g.size ∧ Embeds ρ' x.2 x'.2 ∧ ρ' x.1 = x'.1 := by
  have hp' := g'.puts_derive context name label (links.map (Link.rename ρ)) v
  rw [← h.derived_rename context name label v hlinks] at hp'
  exact h.puts (g.puts_derive context name label links v) hp' nofun
    (g.within_derived context name label v hlinks)

lemma Embeds.constant (h : Embeds ρ g g') (v : Value) :
    ∃ ρ', ρ.Agrees ρ' g.size ∧ Embeds ρ' (g.constant v).2 (g'.constant v).2 ∧
      ρ' (g.constant v).1 = (g'.constant v).1 :=
  h.puts (h.consed.puts_constant v) (h.consed'.puts_constant v) (fun _ => rfl)
    (Node.within_of_underived rfl _)

end Graph

namespace Pending

def rename (ρ : Renaming) : Pending → Pending
  | .existing target n => .existing target (ρ n)
  | .derived target context label links =>
    .derived target context label (links.map (Link.rename ρ))

def Within (n : Nat) : Pending → Prop
  | .existing _ k => k < n
  | .derived _ _ _ links => ∀ l ∈ links, l.node < n

lemma rename_congr {x : Pending} (hx : x.Within n) (h : ρ.Agrees ρ' n) :
    x.rename ρ' = x.rename ρ := by
  cases x with
  | existing target k => rw [rename, rename, h k hx]
  | derived target context label links =>
    have hlinks : links.map (Link.rename ρ') = links.map (Link.rename ρ) :=
      List.map_congr_left fun l hl => by rw [Link.rename, Link.rename, h _ (hx l hl)]
    rw [rename, rename, hlinks]

lemma Within.mono {x : Pending} (h : x.Within n) {n' : Nat} (hn : n ≤ n') : x.Within n' := by
  cases x with
  | existing => exact Nat.lt_of_lt_of_le h hn
  | derived => exact fun l hl => Nat.lt_of_lt_of_le (h l hl) hn

end Pending

namespace Tracker

/-- The trackers have recorded the same under other numbers. -/
structure Twin (ρ : Renaming) (t t' : Tracker) : Prop where
  graph : Graph.Embeds ρ t.graph t'.graph
  context : t'.context = t.context
  marked : t'.marked = t.marked
  pending : t'.pending = t.pending.map (Pending.rename ρ)
  within : ∀ x ∈ t.pending, x.Within t.graph.size

lemma marked_markAll_rename (hm : t'.marked = t.marked) (rs : List Reading) :
    (t'.markAll (s.rename ρ) (rs.map (Reading.rename ρ)) target).marked =
      (t.markAll s rs target).marked := by
  refine marked_markAll (fun id => ?_) hm ?_
  · rw [Store.operand_rename]
    rfl
  · rw [List.map_map]
    rfl

namespace Twin

lemma mono (h : Twin ρ t t') (hg : Graph.Embeds ρ' g g') (hagrees : ρ.Agrees ρ' t.graph.size)
    (hsize : t.graph.size ≤ g.size) :
    Twin ρ' { t with graph := g } { t' with graph := g' } where
  graph := hg
  context := h.context
  marked := h.marked
  pending := by
    show t'.pending = t.pending.map (Pending.rename ρ')
    rw [h.pending]
    cases hx : t.pending with
    | none => rfl
    | some x => rw [Option.map_some, Option.map_some, Pending.rename_congr (h.within x hx) hagrees]
  within x hx := (h.within x hx).mono hsize

lemma pendDerived (h : Twin ρ t t') (s : Store) (target : OperandId) (op : Operator)
    {rs : List Reading} (hrs : ∀ r ∈ rs, r.node < t.graph.size) :
    Twin ρ (t.pendDerived s target op rs)
      (t'.pendDerived (s.rename ρ) target op (rs.map (Reading.rename ρ))) := by
  have hlinks : ((rs.map (Reading.rename ρ)).map fun r => (⟨r.name, r.node⟩ : Link)) =
      (rs.map fun r => (⟨r.name, r.node⟩ : Link)).map (Link.rename ρ) := by
    rw [List.map_map, List.map_map]
    rfl
  refine ⟨?_, ?_, marked_markAll_rename h.marked rs, ?_, ?_⟩
  · simp only [Tracker.pendDerived, graph_markAll]
    exact h.graph
  · simp only [Tracker.pendDerived, context_markAll]
    exact h.context
  · simp only [Tracker.pendDerived, hlinks, h.context]
    rfl
  · rintro x ⟨⟩
    simp only [Tracker.pendDerived, graph_markAll]
    intro l hl
    obtain ⟨r, hr, rfl⟩ := List.mem_map.1 hl
    exact hrs r hr

lemma pendSource (h : Twin ρ t t') (s : Store) (target : OperandId) {r : Reading}
    (hr : r.node < t.graph.size) :
    Twin ρ (t.pendSource s target r) (t'.pendSource (s.rename ρ) target (r.rename ρ)) := by
  by_cases hout : s.IsOutput target
  · have hout' : (s.rename ρ).IsOutput target := by
      rw [Store.IsOutput, Store.operand_rename]
      exact hout
    rw [pendSource_of_output hout, pendSource_of_output hout']
    exact h.pendDerived s target .copy
      (show ∀ x ∈ [r], x.node < t.graph.size by simpa using hr)
  · have hout' : ¬ (s.rename ρ).IsOutput target := by
      rw [Store.IsOutput, Store.operand_rename]
      exact hout
    rw [pendSource_of_not_output hout, pendSource_of_not_output hout']
    refine ⟨?_, ?_, marked_markAll_rename h.marked [r], rfl, ?_⟩
    · simp only [graph_markAll]
      exact h.graph
    · simp only [context_markAll]
      exact h.context
    · rintro x ⟨⟩
      simp only [graph_markAll]
      exact hr

lemma pendConstant (h : Twin ρ t t') (hb : s.BoundIn t.graph) (target : OperandId) (v : Value) :
    ∃ ρ', ρ.Agrees ρ' t.graph.size ∧
      Twin ρ' (t.pendConstant s target v) (t'.pendConstant (s.rename ρ) target v) := by
  obtain ⟨ρ', hagrees, hembeds, hnode⟩ := h.graph.constant v
  have hlt := t.graph.constant_lt v
  have htwin := (h.mono hembeds hagrees (t.graph.constant_grows v).size_le).pendSource s target
    (r := ⟨none, ((t.graph.constant v).2.node (t.graph.constant v).1).name,
      (t.graph.constant v).1, v, true⟩) hlt
  refine ⟨ρ', hagrees, ?_⟩
  rw [Store.rename_congr hb hagrees] at htwin
  have hname : ((t'.graph.constant v).2.node (t'.graph.constant v).1).name =
      ((t.graph.constant v).2.node (t.graph.constant v).1).name := by
    rw [← hnode, hembeds.node hlt, Node.rename_name]
  rw [← hnode] at hname
  simp only [Tracker.pendConstant, ← hnode, hname]
  exact htwin

/-- What a context records does not depend on the numbers of the nodes. -/
lemma branch (h : Twin ρ t t') (hb : s.BoundIn t.graph) (taken : Bool) :
    Twin ρ (t.branch s taken) (t'.branch (s.rename ρ) taken) := by
  have hstate : ∀ id, stateText t'.graph ((s.rename ρ).operand id) =
      stateText t.graph (s.operand id) := by
    intro id
    rw [Store.operand_rename]
    unfold stateText
    cases hn : (s.operand id).node with
    | some n =>
      simp only [Operand.rename, hn, Option.map_some, h.graph.node (hb hn), Node.rename_value,
        Node.rename_shape]
      rfl
    | none =>
      simp only [Operand.rename, hn, Option.map_none]
      rfl
  have hpc : (s.rename ρ).pcValue = s.pcValue := by
    rw [Store.pcValue, Store.operand_rename]
    rfl
  refine ⟨h.graph, ?_, rfl, h.pending, h.within⟩
  simp only [Tracker.branch, h.marked, hstate, hpc]

lemma adopt (h : Twin ρ t t') (hb : s.BoundIn t.graph) (hd : d.Within t.graph.size) :
    ∃ ρ', ρ.Agrees ρ' t.graph.size ∧
      Twin ρ' (t.adopt s d) (t'.adopt (s.rename ρ) (d.rename ρ)) := by
  cases d with
  | nothing => exact ⟨ρ, .refl _ _, h⟩
  | derive target o =>
    cases o with
    | source r => exact ⟨ρ, .refl _ _, h.pendSource s target (hd r (by simp [Decision.readings]))⟩
    | constant v => exact h.pendConstant hb target v
    | derived op rs => exact ⟨ρ, .refl _ _, h.pendDerived s target op hd⟩
    | nothing => exact ⟨ρ, .refl _ _, h⟩
  | branch taken pc x =>
    have hreadings : ∀ r ∈ [pc, x], r.node < t.graph.size := hd
    refine ⟨ρ, .refl _ _, (h.pendDerived s Store.pc (.jump taken) hreadings).branch ?_ _⟩
    simp only [Tracker.pendDerived, graph_markAll]
    exact hb

lemma settle (h : Twin ρ t t') (hb : s.BoundIn t.graph) :
    ∃ ρ', ρ.Agrees ρ' t.graph.size ∧
      Twin ρ' (t.settle s).1 (t'.settle (s.rename ρ)).1 ∧
      (t'.settle (s.rename ρ)).2 = (t.settle s).2.rename ρ' ∧
      (t.settle s).2.BoundIn (t.settle s).1.graph := by
  have hbind : ∀ {g : Graph} {target : OperandId} {n : NodeId}, s.BoundIn g → n < g.size →
      (s.bind target n).BoundIn g := by
    intro g target n hb hn id k hk
    rcases Store.node_bind_cases hk with ⟨-, rfl⟩ | ⟨-, hk⟩
    · exact hn
    · exact hb hk
  have hpending := h.pending
  unfold Tracker.settle
  cases hx : t.pending with
  | none =>
    rw [hx] at hpending
    simp only [hpending, Option.map_none]
    exact ⟨ρ, .refl _ _, h, rfl, hb⟩
  | some x =>
    have hwithin := h.within x hx
    rw [hx] at hpending
    cases x with
    | existing target k =>
      simp only [hpending, Option.map_some, Pending.rename]
      exact ⟨ρ, .refl _ _, ⟨h.graph, h.context, h.marked, rfl, nofun⟩, Store.bind_rename .., 
        hbind hb hwithin⟩
    | derived target context label links =>
      have hop : ((s.rename ρ).operand target).name = (s.operand target).name ∧
          ((s.rename ρ).operand target).recorded = (s.operand target).recorded := by
        rw [Store.operand_rename]
        exact ⟨rfl, rfl⟩
      obtain ⟨ρ', hagrees, hembeds, hnode⟩ := h.graph.derive context (s.operand target).name label
        (s.operand target).recorded hwithin
      have hextends := t.graph.derive_extends context (s.operand target).name label links
        (s.operand target).recorded
      simp only [hpending, Option.map_some, Pending.rename, hop.1, hop.2]
      refine ⟨ρ', hagrees, ⟨hembeds, h.context, h.marked, rfl, nofun⟩, ?_, ?_⟩
      · rw [← hnode, ← Store.rename_congr hb hagrees, Store.bind_rename]
      · exact hbind (fun hn => hextends.lt (hb hn)) (t.graph.derive_lt ..)

end Twin

end Tracker

end Lineage
