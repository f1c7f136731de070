import Lineage.Proofs.Derivation.Fitting
import Lineage.Proofs.Derivation.Meaning
import Lineage.Proofs.Store.Names

/-!
Derivations explain the values they are recorded for.

In a plain program the program counter is not named, what is emitted is not read back, and no
instruction reads from two channels. There a decision rests on the values that the instruction sees,
so every register and every cell that is bound has the value of its node, and every node derived for
a register or a cell has the value that its operator gives for its sources.
-/

namespace Lineage

variable {g : Graph} {s : Store} {id : OperandId} {r : Reading} {v : Value} {m m' : Machine Tracker}
  {d : Decision} {e : Effect}

/-- An instruction that does not name the program counter, reads no output channel, and names an
input channel in one slot at most. -/
structure Instruction.Plain (i : Instruction) (s : Store) : Prop where
  pc : ∀ slot, i.id? slot ≠ some Store.pc
  output : ∀ slot, slot ≠ .dst ∨ i.opcode = .stm ∨ i.opcode = .jcc →
    ∀ id ∈ i.id? slot, ¬ s.IsOutput id
  input : ∀ slot slot', slot ≠ slot' → ∀ id ∈ i.id? slot, ∀ id' ∈ i.id? slot',
    s.IsInput id → ¬ s.IsInput id'

instance (i : Instruction) (s : Store) : Decidable (i.Plain s) :=
  decidable_of_iff ((∀ slot, i.id? slot ≠ some Store.pc) ∧
      (∀ slot, slot ≠ .dst ∨ i.opcode = .stm ∨ i.opcode = .jcc →
        ∀ id ∈ i.id? slot, ¬ s.IsOutput id) ∧
      ∀ slot slot', slot ≠ slot' → ∀ id ∈ i.id? slot, ∀ id' ∈ i.id? slot',
        s.IsInput id → ¬ s.IsInput id')
    ⟨fun ⟨hpc, hout, hin⟩ => ⟨hpc, hout, hin⟩, fun h => ⟨h.pc, h.output, h.input⟩⟩

lemma Instruction.Plain.congr {i : Instruction} {t : Store} (h : i.Plain s)
    (hk : ∀ id, (t.operand id).kind = (s.operand id).kind) : i.Plain t where
  pc := h.pc
  output slot hslot id hid := by
    rw [Store.IsOutput, hk]
    exact h.output slot hslot id hid
  input slot slot' hne id hid id' hid' := by
    rw [Store.IsInput, Store.IsInput, hk, hk]
    exact h.input slot slot' hne id hid id' hid'

/-- The node has the value that an operator of its label gives for the values of its sources. -/
def Graph.Explains (g : Graph) (n : NodeId) (d : Derivation) : Prop :=
  ∃ op : Operator, op.text = d.label ∧
    op.apply (d.sources.map fun k => (g.node k).value) = some (g.node n).value

lemma Graph.Explains.unique {n : NodeId} {dv : Derivation} (h : g.Explains n dv) {op : Operator}
    (hop : op.text = dv.label) (hv : op.apply (dv.sources.map fun k => (g.node k).value) = some v) :
    v = (g.node n).value := by
  obtain ⟨op', hop', hv'⟩ := h
  exact Operator.apply_unique (hop.trans hop'.symm) hv hv'

lemma Instruction.plain_unknown (s : Store) : unknown.Plain s where
  pc slot := by simp
  output slot _ id hid := by simp at hid
  input slot _ _ id hid := by simp at hid

namespace Machine

/-- Registers other than the program counter and memory cells have the values of their nodes. -/
def BindingsTrue (m : Machine Tracker) : Prop :=
  ∀ id n, m.store.IsStorage id → (m.store.operand id).node = some n →
    n < m.observer.graph.size ∧ (m.store.operand id).value = (m.observer.graph.node n).value

/-- The derivations of registers other than the program counter and of memory cells explain their
values. -/
def DerivationsTrue (m : Machine Tracker) : Prop :=
  ∀ id n d, m.store.IsStorage id → n < m.observer.graph.size →
    (m.observer.graph.node n).name = (m.store.operand id).name →
    (m.observer.graph.node n).derivation? = some d → m.observer.graph.Explains n d

end Machine

/-! ### Plain instructions -/

/-- In a plain program a reading has the value of its node. -/
lemma Reading.Of.value_eq (h : r.Of g m.store id) (hg : m.observer.graph.Extends g) (hfit : m.Fit)
    (hm : m.BindingsTrue) (hpc : id ≠ Store.pc) (hout : ¬ m.store.IsOutput id) :
    (g.node r.node).value = r.value := by
  cases hn : (m.store.operand id).node with
  | none =>
    cases hk : (m.store.operand id).isKnown with
    | true => exact (h.known hn hk).2
    | false => rw [h.leaf hn hk]
  | some n =>
    have hst := hfit.fits.isStorage hn hpc hout
    obtain ⟨hlt, hv⟩ := hm id n hst hn
    rw [h.bound hn, hg.node hlt, ← hv, h.value, Store.shown_of_not_input hst.not_input]

/-- A plain instruction writes what is decided on, and the outcome denotes it, or it writes nothing
and gives no node to a register or a cell. -/
lemma Done.plain (h : Done m m' g d e) (hfit : m.Fit) (hm : m.BindingsTrue)
    (hplain : m.next.Plain m.store) :
    (∃ target o v, d = .derive target o ∧ e = .write target v ∧ target ≠ Store.pc ∧
        o.Denotes v ∧ ∀ r ∈ d.readings, (g.node r.node).value = r.value) ∨
      ((∀ target v, e ≠ .write target v) ∧ ∀ target, d.target? = some target →
        target = Store.pc) := by
  have hvalue : ∀ {slot : Slot} {id : OperandId} {r : Reading}, slot ≠ .dst →
      m.next.id? slot = some id → r.Of g m.store id → (g.node r.node).value = r.value := by
    intro slot id r hslot hid hr
    refine hr.value_eq h.grows.toExtends hfit hm ?_ (hplain.output slot (.inl hslot) id hid)
    rintro rfl
    exact hplain.pc slot hid
  have hdst : ∀ {dst}, m.next.id? .dst = some dst → dst ≠ Store.pc := by
    rintro dst hdst rfl
    exact hplain.pc .dst hdst
  have hplanned := h.planned
  cases hplanned with
  | @binary op a b dst x y v _ ha hb hdst' _ hx hy heval =>
    have hxv := hvalue (by decide) ha hx
    have hyv := hvalue (by decide) hb hy
    rw [Store.shown_read_of_one (hplain.input .a .b (by decide) a ha b hb), ← hy.value] at heval
    refine .inl ⟨dst, _, v, rfl, rfl, hdst hdst', ?_, fun r hr => ?_⟩
    · exact Outcome.denotes_ofBinary (fun hnode => by rw [← hxv, hnode, hyv]) heval
    · rcases readings_ofBinary hr with rfl | rfl
      · exact hxv
      · exact hyv
  | @ldm a dst cell x _ _ hdst' hcell hx =>
    have hst := (hfit.laid.kind_memoryCell hcell).1
    refine .inl ⟨dst, _, _, rfl, rfl, hdst hdst', rfl, fun r hr => ?_⟩
    rw [Decision.readings, List.mem_singleton] at hr
    rw [hr]
    exact hx.value_eq h.grows.toExtends hfit hm hst.1 hst.not_output
  | @stm a dst planned cell x _ ha hdst' hplanned hcell hx =>
    -- one of the two slots is no input channel, so the cell decided on is the one written
    rw [Store.shown_read_of_one (hplain.input .a .dst (by decide) a ha dst hdst'), hplanned]
      at hcell
    cases hcell
    refine .inl ⟨planned, _, _, rfl, rfl, (hfit.laid.kind_memoryCell hplanned).1.1, rfl,
      fun r hr => ?_⟩
    rw [Decision.readings, List.mem_singleton] at hr
    rw [hr]
    exact hvalue (by decide) ha hx
  | @stmAstray a dst cell e _ ha hdst' hplanned hcell =>
    rw [Store.shown_read_of_one (hplain.input .a .dst (by decide) a ha dst hdst'), hplanned]
      at hcell
    cases hcell
  | @str a dst x _ ha hdst' hx =>
    refine .inl ⟨dst, _, _, rfl, rfl, hdst hdst', rfl, fun r hr => ?_⟩
    rw [Decision.readings, List.mem_singleton] at hr
    rw [hr]
    exact hvalue (by decide) ha hx
  | @bisz a dst x _ ha hdst' hx =>
    refine .inl ⟨dst, _, _, rfl, rfl, hdst hdst', Outcome.denotes_ofTest x, fun r hr => ?_⟩
    have hrx : r = x := by
      unfold Outcome.ofTest at hr
      split at hr
      · cases hr
      · rwa [Decision.readings, List.mem_singleton] at hr
    rw [hrx]
    exact hvalue (by decide) ha hx
  | @undef dst _ hdst' =>
    exact .inl ⟨dst, _, _, rfl, rfl, hdst hdst', rfl, fun r hr => by cases hr⟩
  | branch _ _ _ _ _ hidle =>
    exact .inr ⟨hidle, fun target ht => by cases ht; rfl⟩
  | known _ hidle => exact .inr ⟨hidle, fun target ht => by cases ht⟩
  | nop | unkn => exact .inr ⟨by simp, fun target ht => by cases ht⟩

/-! ### Steps -/

lemma Done.bindingsTrue (h : Done m m' g d e) (hfit : m.Fit) (hm : m.BindingsTrue)
    (hplain : m.next.Plain m.store) : m'.BindingsTrue := by
  intro id n hst hn
  rw [h.isStorage] at hst
  -- what is neither written nor given a node is as before
  have hother : (∀ v, e ≠ .write id v) → d.target? ≠ some id →
      n < m'.observer.graph.size ∧
        (m'.store.operand id).value = (m'.observer.graph.node n).value := by
    intro he hd
    rw [h.node_other hst.not_input hd] at hn
    obtain ⟨hlt, hv⟩ := hm id n hst hn
    rw [h.value_other hst.1 hst.not_input he, h.node_eq hlt]
    exact ⟨(h.grows.toExtends.trans h.graph).lt hlt, hv⟩
  rcases h.plain hfit hm hplain with ⟨target, o, v, rfl, rfl, hpc, ho, hreadings⟩ | ⟨he, hd⟩
  · by_cases hid : target = id
    · subst hid
      have hv := h.value_target hst.1 hst.2.1
      cases o with
      | source r =>
        obtain ⟨hg, hnode⟩ := h.node_source hst
        rw [hnode] at hn
        cases hn
        have hmem : r ∈ (Decision.derive target (.source r)).readings := List.mem_singleton_self r
        obtain ⟨j, hr⟩ := h.planned.readings_of hmem
        rw [hg, hv, hreadings r hmem]
        exact ⟨hr.lt, ho.symm⟩
      | constant c =>
        obtain ⟨hg, hnode⟩ := h.node_constant hst
        rw [hnode] at hn
        cases hn
        rw [hg, hv, (g.node_constant c).2]
        exact ⟨g.constant_lt c, ho.symm⟩
      | derived op rs =>
        obtain ⟨context, hg, hnode⟩ := h.node_derived hst
        rw [hnode] at hn
        cases hn
        rw [hg]
        obtain ⟨_, -, hval, -⟩ := g.node_derive context (m.store.operand target).name op.text
          (rs.map Reading.link) (m'.store.operand target).value
        exact ⟨g.derive_lt .., hval.symm⟩
      | nothing => exact ho.elim
    · exact hother (fun w hw => hid (Effect.write.inj hw).1)
        fun ht => hid (Option.some.inj ht)
  · exact hother (fun v => he id v) fun ht => hst.1 (hd id ht)

lemma Done.added (h : Done m m' g d e) {n : NodeId} {dv : Derivation} (hge : g.size ≤ n)
    (hlt : n < m'.observer.graph.size)
    (hdv : (m'.observer.graph.node n).derivation? = some dv) :
    ∃ target, d.target? = some target ∧
      (m'.observer.graph.node n).name = (m.store.operand target).name ∧
      (m.store.IsStorage target → ∃ op rs, d = .derive target (.derived op rs) ∧
        dv.label = op.text ∧ dv.sources = rs.map Reading.node ∧
        (m'.observer.graph.node n).value = (m'.store.operand target).value) := by
  obtain ⟨u, w, hs, hf, hr⟩ := h.effect
  have hkind : ∀ id, (w.operand id).kind = (m.store.operand id).kind := fun id => by
    rw [hf.kind, hs.kind]
  obtain ⟨target, ht, hname, hcase⟩ := hr.added hge hlt hdv
  refine ⟨target, ht, by rw [hname, Operand.name, hkind, Operand.name], fun hst => ?_⟩
  rcases hcase with hout | hpc | ⟨op, rs, hd, hl, hsrc, hv⟩
  · rw [Store.IsOutput, hkind] at hout
    exact absurd hout hst.not_output
  · exact absurd hpc hst.1
  · refine ⟨op, rs, hd, hl, hsrc, ?_⟩
    have hst' := hst.2.2
    rw [← hkind] at hst'
    rw [hv, hr.value, Operand.recorded]
    cases hk : (w.operand target).kind with
    | output c => rw [hk] at hst'; cases hst'
    | _ => rfl

lemma Graph.Explains.extend {g g' : Graph} {n : NodeId} {dv : Derivation} (h : g.Explains n dv)
    (hg : g.Extends g') (hn : n < g.size) (hsrc : ∀ k ∈ dv.sources, k < n) :
    g'.Explains n dv := by
  obtain ⟨op, hop, happly⟩ := h
  refine ⟨op, hop, ?_⟩
  have hmap : dv.sources.map (fun k => (g'.node k).value) =
      dv.sources.map fun k => (g.node k).value :=
    List.map_congr_left fun k hk => by rw [hg.node (Nat.lt_trans (hsrc k hk) hn)]
  rw [hmap, hg.node hn, happly]

lemma Done.derivationsTrue (h : Done m m' g d e) (hfit : m.Fit) (hm : m.BindingsTrue)
    (hd : m.DerivationsTrue) (hnamed : m.store.Named) (hplain : m.next.Plain m.store) :
    m'.DerivationsTrue := by
  intro id n dv hst hlt hname hdv
  rw [h.isStorage] at hst
  rw [Operand.name, h.kind, ← Operand.name] at hname
  have hextends := h.grows.toExtends.trans h.graph
  rcases Nat.lt_or_ge n m.observer.graph.size with hold | hnew
  · -- a node that was there keeps its sources
    rw [hextends.node hold] at hname hdv
    exact (hd id n dv hst hold hname hdv).extend hextends hold (hfit.fits.sources hold hdv)
  · rcases Nat.lt_or_ge n g.size with hlooked | hadded
    · -- looking adds no derivation
      rw [h.graph.node hlooked, h.grows.added hnew hlooked] at hdv
      cases hdv
    · -- the one that is added was derived for the target of the step
      obtain ⟨target, ht, hname', hderived⟩ := h.added hadded hlt hdv
      have htarget : m.store.IsStorage target := by
        by_contra hno
        have hw := h.target_writable hfit.laid ht
        exact hst.name_ne hfit.laid hnamed hno hw (hname'.symm.trans hname)
      obtain ⟨op, rs, rfl, hlabel, hsrc, hv⟩ := hderived htarget
      rcases h.plain hfit hm hplain with ⟨target', o, v, hdec, rfl, -, ho, hreadings⟩ | ⟨-, hpc⟩
      · cases hdec
        refine ⟨op, hlabel.symm, ?_⟩
        have hmap : dv.sources.map (fun k => (m'.observer.graph.node k).value) =
            rs.map Reading.value := by
          rw [hsrc, List.map_map]
          refine List.map_congr_left fun r hr => ?_
          obtain ⟨j, hof⟩ := h.planned.readings_of hr
          show (m'.observer.graph.node r.node).value = r.value
          rw [h.graph.node hof.lt, hreadings r hr]
        rw [hmap, hv, h.value_target htarget.1 htarget.2.1]
        exact ho
      · exact absurd (hpc target rfl) htarget.1

lemma Tracked.true_of_fault {f : Fault} (ht : Tracked m m' (.error f)) (hfit : m.Fit)
    (hm : m.BindingsTrue) (hd : m.DerivationsTrue) : m'.BindingsTrue ∧ m'.DerivationsTrue := by
  cases ht with
  | fault f _ hs hg =>
    have hst : ∀ {id}, m'.store.IsStorage id → m.store.IsStorage id := fun h => by
      simpa only [Store.IsStorage, hs.size, hs.kind] using h
    constructor
    · intro id n hid hn
      obtain ⟨hlt, hv⟩ := hm id n (hst hid) (hs.node hn)
      rw [hg.node hlt, hs.other (hst hid).not_input]
      exact ⟨hg.lt hlt, hv⟩
    · intro id n dv hid hlt hname hdv
      rcases Nat.lt_or_ge n m.observer.graph.size with hold | hnew
      · rw [hg.node hold] at hname hdv
        rw [hs.other (hst hid).not_input] at hname
        exact (hd id n dv (hst hid) hold hname hdv).extend hg.toExtends hold
          (hfit.fits.sources hold hdv)
      · rw [hg.added hnew hlt] at hdv
        cases hdv

/-! ### Runs -/

namespace Machine

/-- **Derivations explain values**: in every state of a plain program, reached with or without
faults, the registers and cells that are bound have the values of their nodes, and the nodes derived
for registers and cells have the values that their operators give for their sources. -/
theorem derivations_explain {s : Store} {program : String} (hs : s.source.Truthful) (hl : s.Laid)
    (hu : s.Unbound) (hn : s.Named)
    (h : loadText { store := s, observer := {} } program = (.ok (), m))
    (hplain : ∀ i ∈ m.program, i.Plain m.store) (n : Nat) :
    (m.after n).BindingsTrue ∧ (m.after n).DerivationsTrue := by
  obtain ⟨hfit, hunbound, hempty, -, hlayout⟩ := fit_of_loadText hs hl hu h
  have hnext : ∀ n, (m.after n).next.Plain (m.after n).store := fun n =>
    (hfit.next_of_all hplain (Instruction.plain_unknown _) n).congr (hfit.constant n).2.2.2.2
  have hnamed : ∀ n, (m.after n).store.Named := fun n =>
    hn.congr ((hfit.constant n).2.2.1.trans hlayout)
  induction n with
  | zero =>
    constructor
    · intro id k _ hk
      simp only [after, hunbound id, reduceCtorEq] at hk
    · intro id k d _ hlt
      rw [after, hempty] at hlt
      exact absurd hlt (Nat.not_lt_zero k)
  | succ n ih =>
    obtain ⟨hb, hd⟩ := ih
    have ht := (hfit.after n).tracked
    generalize hr : (m.after n).step.1 = r at ht
    cases ht with
    | fault f hp hsteady hg =>
      exact (Tracked.fault f hp hsteady hg).true_of_fault (hfit.after n) hb hd
    | done hdone =>
      exact ⟨hdone.bindingsTrue (hfit.after n) hb (hnext n),
        hdone.derivationsTrue (hfit.after n) hb hd (hnamed n) (hnext n)⟩

/-- A computed address, a value that comes back from memory, and one that leaves. -/
theorem derivations_explain_memory :
    let s : Store :=
      { layout := { registers := ["A", "B"], memorySize := 2, inputs := 1, outputs := 1 }
        operands := #[{ kind := .register pcName }, { kind := .register "A" },
          { kind := .register "B" }, { kind := .memory 0 }, { kind := .memory 1 },
          { kind := .input 0 }, { kind := .output 0 }]
        source := .queues [[1, 6, 7]] }
    let program := "STR IN0, , A\nMUL A, IN0, B\nSTM B, , A\nLDM A, , A\nXOR A, B, OUT0"
    let m := (loadText { store := s, observer := ({} : Tracker) } program).2
    (s.source.Truthful ∧ s.Laid ∧ s.Unbound ∧ s.Named ∧
        loadText { store := s, observer := {} } program = (.ok (), m) ∧
        ∀ i ∈ m.program, i.Plain m.store) ∧
      (m.after 5).BindingsTrue ∧ (m.after 5).DerivationsTrue := by
  intro s program m
  have hsrc : s.source.Truthful := Source.queues_truthful _
  have hbuild : Config.build
      { registers := ["A", "B"], memorySize := 2, inputs := 1, outputs := 1
        source := .queues [[1, 6, 7]] } = .ok s := rfl
  obtain ⟨hl, hu⟩ := Config.laid_of_build hbuild
  have hn : s.Named := ⟨by decide +kernel, by decide⟩
  have hload : loadText { store := s, observer := {} } program = (.ok (), m) :=
    Prod.ext (by decide +kernel) rfl
  have hplain : ∀ i ∈ m.program, i.Plain m.store := by decide +kernel
  exact ⟨⟨hsrc, hl, hu, hn, hload, hplain⟩, derivations_explain hsrc hl hu hn hload hplain 5⟩

end Machine

end Lineage
