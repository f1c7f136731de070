import Lineage.Proofs.Derivation.Recording
import Lineage.Proofs.Instruction.Binding

/-!
Graphs that fit their stores.

The bound nodes are in the graph, the sources of a node come before it, only operands that can be
written are bound, and no output channel is bound to a constant. Every step of a tracked machine
keeps this, whether it faults or not.
-/

namespace Lineage

variable {g g' : Graph} {t : Tracker} {s s' u v : Store} {i : Instruction} {d : Decision}
  {e : Effect}

structure Fits (g : Graph) (s : Store) : Prop where
  bound : s.BoundIn g
  sources : ∀ {id d}, id < g.size → (g.node id).derivation? = some d → ∀ n ∈ d.sources, n < id
  writable : ∀ {id n}, (s.operand id).node = some n → (s.operand id).isWritable = true
  output : ∀ {id n}, s.IsOutput id → (s.operand id).node = some n → (g.node n).isConstant = false

lemma readings_ofBinary {target : OperandId} {op : BinaryOp} {x y r : Reading}
    (h : r ∈ (Decision.derive target (.ofBinary op x y)).readings) : r = x ∨ r = y := by
  have hone : ∀ {k z first}, r ∈ (Decision.derive target (.ofConstant op k z first)).readings →
      r = z := by
    intro k z first hr
    unfold Outcome.ofConstant at hr
    split at hr
    · simpa only [Decision.readings, List.mem_singleton] using hr
    · split at hr
      · cases hr
      · simpa only [Decision.readings, List.mem_singleton] using hr
  unfold Outcome.ofBinary at h
  split at h
  · cases hv : op.eval x.value y.value with
    | some w => rw [hv] at h; cases h
    | none => rw [hv] at h; cases h
  · split at h
    · exact .inl (by simpa only [Decision.readings, List.mem_singleton] using h)
    · split at h
      · cases h
      · split at h
        · exact .inr (hone h)
        · split at h
          · exact .inl (hone h)
          · simpa only [Decision.readings, List.mem_cons, List.not_mem_nil, or_false] using h

lemma readings_ofTest {target : OperandId} {x r : Reading}
    (h : r ∈ (Decision.derive target (.ofTest x)).readings) : r = x := by
  unfold Outcome.ofTest at h
  split at h
  · cases h
  · simpa only [Decision.readings, List.mem_singleton] using h

namespace Planned

/-- Every reading that a decision rests on is that of an operand that the instruction takes a value
from, of the program counter, or of a memory cell. -/
lemma readings_taken (h : Planned i t s g d e) {r : Reading} (hr : r ∈ d.readings) :
    ∃ id, r.Of g s id ∧ ((∃ slot, i.opcode.takes slot = true ∧ id ∈ i.id? slot) ∨
      id = Store.pc ∨ ∃ address, s.memoryCell address = .ok id) := by
  cases h with
  | binary hop ha hb _ _ hx hy =>
    rcases readings_ofBinary hr with rfl | rfl
    · exact ⟨_, hx, .inl ⟨.a, by rw [hop]; rfl, ha⟩⟩
    · exact ⟨_, hy, .inl ⟨.b, by rw [hop]; rfl, hb⟩⟩
  | ldm _ _ _ hcell hx =>
    rw [Decision.readings, List.mem_singleton] at hr
    exact ⟨_, hr ▸ hx, .inr (.inr ⟨_, hcell⟩)⟩
  | stm hop ha _ _ _ hx | str hop ha _ hx =>
    rw [Decision.readings, List.mem_singleton] at hr
    exact ⟨_, hr ▸ hx, .inl ⟨.a, by rw [hop]; rfl, ha⟩⟩
  | bisz hop ha _ hx =>
    rw [readings_ofTest hr]
    exact ⟨_, hx, .inl ⟨.a, by rw [hop]; rfl, ha⟩⟩
  | branch hop ha hpc hx =>
    simp only [Decision.readings, List.mem_cons, List.not_mem_nil, or_false] at hr
    rcases hr with rfl | rfl
    · exact ⟨_, hpc, .inr (.inl rfl)⟩
    · exact ⟨_, hx, .inl ⟨.a, by rw [hop]; rfl, ha⟩⟩
  | stmAstray | undef | known | nop | unkn => cases hr

lemma readings_of (h : Planned i t s g d e) {r : Reading} (hr : r ∈ d.readings) :
    ∃ id, r.Of g s id := by
  obtain ⟨id, hof, -⟩ := h.readings_taken hr
  exact ⟨id, hof⟩

lemma target_writable (h : Planned i t s g d e) (hl : s.Laid) (hs : s.Steady u)
    (hf : u.Follows e v) {target : OperandId} (ht : d.target? = some target) :
    (s.operand target).isWritable = true := by
  have hwritten : ∀ {target v}, e = .write target v → (s.operand target).isWritable = true := by
    intro target v he
    have hw := hf.writable he
    rwa [Operand.isWritable, hs.kind] at hw
  cases h with
  | binary | ldm | str | bisz | undef => cases ht; exact hwritten rfl
  | stm _ _ _ hplanned =>
    cases ht
    rw [Operand.isWritable, (hl.kind_memoryCell hplanned).2]
  | branch =>
    cases ht
    rw [Operand.isWritable, hl.kind_pc.2]
  | stmAstray | known | nop | unkn => cases ht

end Planned

namespace Fits

lemma of_unbound (h : s.Unbound) : Fits {} s where
  bound hn := by simp [h _] at hn
  sources hlt := absurd hlt (Nat.not_lt_zero _)
  writable hn := by simp [h _] at hn
  output _ hn := by simp [h _] at hn

/-- Whether a graph fits depends on what is bound alone. -/
lemma congr (h : Fits g s) (hkind : ∀ id n, (s.operand id).node = some n →
      (u.operand id).kind = (s.operand id).kind)
    (hnode : ∀ id, (u.operand id).node = (s.operand id).node) : Fits g u where
  bound hn := h.bound (by rwa [← hnode])
  sources := h.sources
  writable {id n} hn := by
    rw [hnode] at hn
    rw [Operand.isWritable, hkind id n hn]
    exact h.writable hn
  output {id n} ho hn := by
    rw [hnode] at hn
    rw [Store.IsOutput, hkind id n hn] at ho
    exact h.output ho hn

lemma unbound (h : Fits g s) {id : OperandId} (hw : (s.operand id).isWritable = false) :
    (s.operand id).node = none := by
  cases hn : (s.operand id).node with
  | none => rfl
  | some n =>
    rw [h.writable hn] at hw
    cases hw

/-- Except for the program counter and the output channels, only registers and cells are bound. -/
lemma isStorage (h : Fits g s) {id : OperandId} {n : NodeId} (hn : (s.operand id).node = some n)
    (hpc : id ≠ Store.pc) (hout : ¬ s.IsOutput id) : s.IsStorage id :=
  Store.isStorage_of_writable hpc (Store.lt_of_node hn) (h.writable hn) hout

lemma steady (h : Fits g s) (hs : s.Steady u) : Fits g u where
  bound hn := h.bound (hs.node hn)
  sources := h.sources
  writable {id n} hn := by
    rw [Operand.isWritable, hs.kind]
    exact h.writable (hs.node hn)
  output {id n} ho hn := by
    rw [Store.IsOutput, hs.kind] at ho
    exact h.output ho (hs.node hn)

lemma follows (h : Fits g u) (hf : u.Follows e v) : Fits g v :=
  h.congr (fun id _ _ => hf.kind id) hf.node

lemma extend (h : Fits g s) (hg : g.Extends g') (hadded : ∀ {id d}, g.size ≤ id → id < g'.size →
    (g'.node id).derivation? = some d → ∀ n ∈ d.sources, n < id) : Fits g' s where
  bound hn := hg.lt (h.bound hn)
  sources {id d} hid hd := by
    rcases Nat.lt_or_ge id g.size with hlt | hge
    · rw [hg.node hlt] at hd
      exact h.sources hlt hd
    · exact hadded hge hid hd
  writable := h.writable
  output ho hn := by
    rw [hg.node (h.bound hn)]
    exact h.output ho hn

lemma grow (h : Fits g s) (hg : g.Grows g') : Fits g' s := by
  refine h.extend hg.toExtends fun hge hlt hd => ?_
  rw [hg.added hge hlt] at hd
  cases hd

lemma derive (h : Fits g s) (context name label : String) {links : List Link} (v : Value)
    (hlinks : ∀ l ∈ links, l.node < g.size) :
    Fits (g.derive context name label links v).2 s := by
  refine h.extend (g.derive_extends ..) fun {id d} hge hlt hd n hn => ?_
  rcases g.node_derive_cases context name label links v hlt with ⟨hlt', -⟩ | ⟨hid, hnode⟩
  · exact absurd hlt' (Nat.not_lt.2 hge)
  · rw [hnode] at hd
    cases hd
    obtain ⟨l, hl, rfl⟩ := List.mem_map.1 hn
    rw [hid]
    exact hlinks l hl

lemma bind (h : Fits g s) {target : OperandId} {n : NodeId} (hn : n < g.size)
    (hw : (s.operand target).isWritable = true)
    (ho : s.IsOutput target → (g.node n).isConstant = false) : Fits g (s.bind target n) where
  bound {id m} hm := by
    rcases Store.node_bind_cases hm with ⟨-, rfl⟩ | ⟨-, hm⟩
    · exact hn
    · exact h.bound hm
  sources := h.sources
  writable {id m} hm := by
    rw [Operand.isWritable, Store.kind_bind]
    rcases Store.node_bind_cases hm with ⟨rfl, -⟩ | ⟨-, hm⟩
    · exact hw
    · exact h.writable hm
  output {id m} hout hm := by
    rw [Store.IsOutput, Store.kind_bind] at hout
    rcases Store.node_bind_cases hm with ⟨rfl, rfl⟩ | ⟨-, hm⟩
    · exact ho hout
    · exact h.output hout hm

lemma records (h : Fits g s) (hr : Records d g s g' s') (hreadings : ∀ r ∈ d.readings,
    r.node < g.size) (htarget : ∀ target, d.target? = some target →
    (s.operand target).isWritable = true) : Fits g' s' := by
  -- derivations are recorded alike: their sources come before them, and they are no constants
  have hderive : ∀ {context name label : String} {links : List Link} {w : Value}
      {target : OperandId} {g : Graph} {r : NodeId × Graph}, Fits g s →
      r = g.derive context name label links w → (∀ l ∈ links, l.node < g.size) →
      (s.operand target).isWritable = true → Fits r.2 (s.bind target r.1) := by
    intro context name label links w target g r h hr hlinks hw
    rw [hr]
    exact (h.derive _ _ _ _ hlinks).bind (g.derive_lt ..) hw fun _ =>
      g.node_derive_not_constant ..
  cases hr with
  | nothing | void => exact h
  | source hout =>
    exact h.bind (hreadings _ (by simp [Decision.readings])) (htarget _ rfl)
      fun ho => absurd ho hout
  | constant hout =>
    exact (h.grow (g.constant_grows _)).bind (g.constant_lt _) (htarget _ rfl)
      fun ho => absurd ho hout
  | derived context hr =>
    refine hderive h hr (fun l hl => ?_) (htarget _ rfl)
    obtain ⟨r, hr, rfl⟩ := List.mem_map.1 hl
    exact hreadings r hr
  | copy _ context hr =>
    refine hderive h hr (fun l hl => ?_) (htarget _ rfl)
    rw [List.mem_singleton] at hl
    rw [hl]
    exact hreadings _ (by simp [Decision.readings])
  | copyConstant _ context hnode hr =>
    refine hderive (h.grow (g.constant_grows _)) hr (fun l hl => ?_) (htarget _ rfl)
    rw [List.mem_singleton] at hl
    rw [hl, hnode]
    exact g.constant_lt _
  | branch context hr =>
    refine hderive h hr (fun l hl => ?_) (htarget _ rfl)
    simp only [List.mem_cons, List.not_mem_nil, or_false] at hl
    rcases hl with rfl | rfl
    · exact hreadings _ (by simp [Decision.readings])
    · exact hreadings _ (by simp [Decision.readings])

end Fits

/-! ### Machines -/

/-- What holds of a tracked machine at all times. -/
structure Machine.Fit (m : Machine Tracker) : Prop where
  truthful : m.store.source.Truthful
  laid : m.store.Laid
  fits : Fits m.observer.graph m.store

namespace Machine

variable {m m' : Machine Tracker} {r : Except Fault Bool}

/-- A program that is decoded leaves a machine fit whose store is laid out and has no bindings. -/
lemma fit_of_loadText {s : Store} {program : String} (hs : s.source.Truthful) (hl : s.Laid)
    (hu : s.Unbound) (h : loadText { store := s, observer := {} } program = (.ok (), m)) :
    m.Fit ∧ m.store.Unbound ∧ m.observer = {} ∧ m.store.source = s.source ∧
      m.store.layout = s.layout := by
  obtain ⟨hi, hobserver⟩ := interned_of_loadText h
  have hunbound := hi.unbound hu
  refine ⟨⟨by rwa [hi.source], hi.laid hl, ?_⟩, hunbound, hobserver, hi.source, hi.layout⟩
  rw [hobserver]
  exact .of_unbound hunbound

namespace Fit

lemma tracked (h : m.Fit) : Tracked m m.step.2 m.step.1 :=
  step_tracked h.truthful h.laid h.fits.bound

end Fit

end Machine

lemma Done.target_writable {m m' : Machine Tracker} (h : Done m m' g d e) (hl : m.store.Laid)
    {target : OperandId} (ht : d.target? = some target) :
    (m.store.operand target).isWritable = true := by
  obtain ⟨u, v, hs, hf, -⟩ := h.effect
  exact h.planned.target_writable hl hs hf ht

namespace Tracked

variable {m m' : Machine Tracker} {r : Except Fault Bool}

lemma fit (ht : Tracked m m' r) (h : m.Fit) : m'.Fit := by
  cases ht with
  | fault f _ hs hg =>
    exact ⟨by rw [hs.source]; exact h.truthful, h.laid.steady hs, (h.fits.steady hs).grow hg⟩
  | @done g d e h' =>
    obtain ⟨u, v, hs, hf, hr⟩ := h'.effect
    obtain ⟨hlayout, hsource, hsize⟩ := hr.layout
    have hkind : ∀ id, (m'.store.operand id).kind = (m.store.operand id).kind := fun id => by
      rw [hr.kind, hf.kind, hs.kind]
    refine ⟨?_, ?_, ?_⟩
    · rw [hsource, hf.source, hs.source]
      exact h.truthful
    · exact h.laid.congr (by rw [hlayout, hf.layout, hs.layout])
        (by rw [hsize, hf.size, hs.size]) hkind
    · refine (((h.fits.grow h'.grows).steady hs).follows hf).records hr (fun r hr' => ?_)
        fun target htarget => ?_
      · obtain ⟨id, hof⟩ := h'.planned.readings_of hr'
        exact hof.lt
      · have hw := h'.target_writable h.laid htarget
        rwa [Operand.isWritable, hf.kind, hs.kind]

/-- No step changes the program, the input source, the layout or the kinds of the operands. -/
lemma constant (ht : Tracked m m' r) : m'.program = m.program ∧
    m'.store.source = m.store.source ∧ m'.store.layout = m.store.layout ∧
    m'.store.operands.size = m.store.operands.size ∧
    ∀ id, (m'.store.operand id).kind = (m.store.operand id).kind := by
  cases ht with
  | fault f hp hs _ => exact ⟨hp, hs.source, hs.layout, hs.size, hs.kind⟩
  | done h =>
    obtain ⟨u, v, hs, hf, hr⟩ := h.effect
    obtain ⟨hlayout, hsource, hsize⟩ := hr.layout
    exact ⟨h.program, by rw [hsource, hf.source, hs.source], by rw [hlayout, hf.layout, hs.layout],
      by rw [hsize, hf.size, hs.size], fun id => by rw [hr.kind, hf.kind, hs.kind]⟩

end Tracked

namespace Machine

variable {m : Machine Tracker}

lemma Fit.after (h : m.Fit) (n : Nat) : (m.after n).Fit := by
  induction n with
  | zero => exact h
  | succ n ih => exact ih.tracked.fit ih

lemma Fit.constant (h : m.Fit) (n : Nat) : (m.after n).program = m.program ∧
    (m.after n).store.source = m.store.source ∧ (m.after n).store.layout = m.store.layout ∧
    (m.after n).store.operands.size = m.store.operands.size ∧
    ∀ id, ((m.after n).store.operand id).kind = (m.store.operand id).kind := by
  induction n with
  | zero => exact ⟨rfl, rfl, rfl, rfl, fun _ => rfl⟩
  | succ n ih =>
    obtain ⟨hp, hsrc, hl, hsize, hk⟩ := (h.after n).tracked.constant
    obtain ⟨hp', hsrc', hl', hsize', hk'⟩ := ih
    exact ⟨hp.trans hp', hsrc.trans hsrc', hl.trans hl', hsize.trans hsize',
      fun id => (hk id).trans (hk' id)⟩

/-- Reading binds no nodes, and takes none away but those of input channels, which have none. -/
lemma Fit.node_steady (h : m.Fit) {u : Store} (hs : m.store.Steady u) (id : OperandId) :
    (u.operand id).node = (m.store.operand id).node := by
  by_cases hi : m.store.IsInput id
  · obtain ⟨c, hc⟩ := hi
    have hnone := h.fits.unbound
      (show (m.store.operand id).isWritable = false by rw [Operand.isWritable, hc])
    rw [hnone]
    cases hn : (u.operand id).node with
    | none => rfl
    | some n =>
      rw [hs.node hn] at hnone
      cases hnone
  · rw [hs.other hi]

lemma Fit.node_eq (h : m.Fit) {e : Effect} {u v : Store} (hs : m.store.Steady u)
    (hf : u.Follows e v) (id : OperandId) : (v.operand id).node = (m.store.operand id).node := by
  rw [hf.node, h.node_steady hs]

/-- What all instructions of a program and the unknown one have in common, the next one has. -/
lemma Fit.next_of_all (h : m.Fit) {p : Instruction → Prop} (hp : ∀ i ∈ m.program, p i)
    (hunknown : p .unknown) (n : Nat) : p (m.after n).next := by
  rcases (m.after n).next_mem with hmem | heq
  · rw [(h.constant n).1] at hmem
    exact hp _ hmem
  · rw [heq]
    exact hunknown

end Machine

end Lineage
