import Lineage.Proofs.Derivation.Fitting
import Lineage.Proofs.Store.Names

/-!
Histories of their own.

A node that is recorded for one value may be found again for another, and then it brings its sources
along. In straight-line code over registers, constants and input channels this never brings in a
channel that has not flowed into the register in question: a source that is compared by node is a
source of both derivations, and one that is compared by value and shape only was read from the very
register that is derived, into which all that it was derived from has flowed before.
-/

namespace Lineage

variable {g g' : Graph} {s : Store} {i : Instruction} {d : Decision} {e : Effect} {r : Reading}
  {id target : OperandId} {n k : NodeId} {c : Nat} {m m' : Machine Tracker}

/-! ### Channels behind a node -/

namespace Graph

/-- The node is a leaf called like the input channel, or one of its sources is derived from such a
leaf. -/
inductive Draws (g : Graph) (c : Nat) : NodeId → Prop
  | leaf {n : NodeId} {external : Bool} (origin : (g.node n).origin = .leaf external)
      (name : (g.node n).name = (Kind.input c).name) : Draws g c n
  | source {n k : NodeId} (mem : k ∈ (g.node n).sources) (draws : Draws g c k) : Draws g c n

lemma Draws.not_constant (h : g.Draws c n) : (g.node n).isConstant = false := by
  unfold Node.isConstant
  cases h with
  | leaf ho => rw [ho]
  | source hk =>
    obtain ⟨dv, hdv, -⟩ := mem_sources.1 hk
    unfold Node.derivation? at hdv
    split at hdv
    · next ho => rw [ho]
    · cases hdv

lemma Draws.of_derivation {dv : Derivation} (h : g.Draws c n)
    (hd : (g.node n).derivation? = some dv) : ∃ k ∈ dv.sources, g.Draws c k := by
  cases h with
  | leaf ho =>
    rw [Node.derivation?, ho] at hd
    cases hd
  | source hk hdraws =>
    obtain ⟨dv', hd', hk'⟩ := mem_sources.1 hk
    rw [hd] at hd'
    cases hd'
    exact ⟨_, hk', hdraws⟩

lemma Extends.draws (h : g.Extends g') (hs : ∀ {id dv}, id < g.size →
    (g.node id).derivation? = some dv → ∀ n ∈ dv.sources, n < id) (hn : n < g.size)
    (hd : g'.Draws c n) : g.Draws c n := by
  induction hd with
  | leaf ho hname =>
    rw [h.node hn] at ho hname
    exact .leaf ho hname
  | source hk _ ih =>
    rw [h.node hn] at hk
    obtain ⟨dv, hdv, hk'⟩ := mem_sources.1 hk
    exact .source hk (ih (Nat.lt_trans (hs hn hdv _ hk') hn))

end Graph

/-! ### Flow -/

namespace Instruction

/-- An instruction of straight-line code whose operands are registers other than the program
counter, constants and input channels. -/
structure Flat (i : Instruction) (s : Store) : Prop where
  opcode : i.opcode ≠ .jcc ∧ i.opcode ≠ .ldm ∧ i.opcode ≠ .stm
  operand : ∀ slot, ∀ id ∈ i.id? slot, s.IsRegister id ∨ (s.operand id).kind.isConstant = true ∨
    s.IsInput id

def Writes (i : Instruction) (id : OperandId) : Prop :=
  i.opcode.writesDst = true ∧ i.id? .dst = some id

end Instruction

/-- Values of the input channel have flowed into the operand in the first steps of the machine: an
instruction that wrote the operand had the channel itself in a slot, or an operand that the channel
had flowed into before. -/
def Machine.Flows (m : Machine Tracker) : Nat → OperandId → Nat → Prop
  | 0, _, _ => False
  | n + 1, id, c => m.Flows n id c ∨
      (∃ running, (m.after n).step.1 = .ok running) ∧ (m.after n).next.Writes id ∧
      ∃ slot, slot ≠ .dst ∧ ∃ src ∈ (m.after n).next.id? slot,
        ((m.after n).store.operand src).kind = .input c ∨ m.Flows n src c

lemma Store.SameFrame.isRegister {t : Store} (h : s.SameFrame t) :
    t.IsRegister id ↔ s.IsRegister id := by
  simp only [IsRegister, h.size, h.kind]

namespace Instruction

instance (i : Instruction) (s : Store) : Decidable (i.Flat s) :=
  decidable_of_iff ((i.opcode ≠ .jcc ∧ i.opcode ≠ .ldm ∧ i.opcode ≠ .stm) ∧
      ∀ slot, ∀ id ∈ i.id? slot, s.IsRegister id ∨ (s.operand id).kind.isConstant = true ∨
        s.IsInput id)
    ⟨fun ⟨hop, hid⟩ => ⟨hop, hid⟩, fun h => ⟨h.opcode, h.operand⟩⟩

lemma flat_unknown (s : Store) : unknown.Flat s := ⟨by decide, by simp⟩

lemma Flat.sameFrame {t : Store} (h : i.Flat s) (hf : s.SameFrame t) : i.Flat t where
  opcode := h.opcode
  operand slot id hid := by
    rw [hf.isRegister, hf.kind, hf.isInput]
    exact h.operand slot id hid

end Instruction

/-! ### What is known of a graph -/

/-- The graph draws on nothing but what has flowed: `F` tells which channels have flowed into which
operands. -/
structure Histories (F : OperandId → Nat → Prop) (g : Graph) (s : Store) : Prop where
  bound : ∀ {id n c}, s.IsRegister id → (s.operand id).node = some n → g.Draws c n → F id c
  /-- What is recorded under the name of a register draws on what has flowed into it. -/
  recorded : ∀ {id n dv c}, n < g.size → (g.node n).derivation? = some dv → s.IsRegister id →
    (g.node n).name = (s.operand id).name → g.Draws c n → F id c
  /-- A source that is not compared by node was read from the operand that is derived. -/
  links : ∀ {n dv k}, n < g.size → (g.node n).derivation? = some dv → k ∈ dv.sources →
    ∃ p ∈ dv.identities, p.2 = .node k ∨
      p.1 = (g.node n).name ∧ ∃ v shape, p.2 = .carried v shape

namespace Histories

variable {F F' : OperandId → Nat → Prop} {t : Store}

lemma mono (h : Histories F g s) (hF : ∀ {id c}, F id c → F' id c) : Histories F' g s where
  bound hid hn hd := hF (h.bound hid hn hd)
  recorded hlt hdv hid hname hd := hF (h.recorded hlt hdv hid hname hd)
  links := h.links

lemma sameFrame (h : Histories F g s) (hf : s.SameFrame t)
    (hn : ∀ {id n}, (t.operand id).node = some n → (s.operand id).node = some n) :
    Histories F g t where
  bound hid hid' hd := h.bound (hf.isRegister.1 hid) (hn hid') hd
  recorded hlt hdv hid hname hd :=
    h.recorded hlt hdv (hf.isRegister.1 hid) (hname.trans (hf.name _)) hd
  links := h.links

lemma extend (h : Histories F g s) (hfit : Fits g s) (hg : g.Extends g')
    (hrecorded : ∀ {id n dv c}, g.size ≤ n → n < g'.size → (g'.node n).derivation? = some dv →
      s.IsRegister id → (g'.node n).name = (s.operand id).name → g'.Draws c n → F id c)
    (hlinks : ∀ {n dv k}, g.size ≤ n → n < g'.size → (g'.node n).derivation? = some dv →
      k ∈ dv.sources → ∃ p ∈ dv.identities, p.2 = .node k ∨
        p.1 = (g'.node n).name ∧ ∃ v shape, p.2 = .carried v shape) : Histories F g' s where
  bound hid hn hd := h.bound hid hn (hg.draws hfit.sources (hfit.bound hn) hd)
  recorded {id n dv c} hlt hdv hid hname hd := by
    rcases Nat.lt_or_ge n g.size with hold | hnew
    · have hd' := hg.draws hfit.sources hold hd
      rw [hg.node hold] at hdv hname
      exact h.recorded hold hdv hid hname hd'
    · exact hrecorded hnew hlt hdv hid hname hd
  links {n dv k} hlt hdv hk := by
    rcases Nat.lt_or_ge n g.size with hold | hnew
    · rw [hg.node hold] at hdv ⊢
      exact h.links hold hdv hk
    · exact hlinks hnew hlt hdv hk

lemma grow (h : Histories F g s) (hfit : Fits g s) (hg : g.Grows g') : Histories F g' s := by
  refine h.extend hfit hg.toExtends (fun hge hlt hdv => ?_) fun hge hlt hdv => ?_ <;>
    · rw [hg.added hge hlt] at hdv
      cases hdv

lemma bind (h : Histories F g s) (hn : ∀ {c}, g.Draws c n → F target c) :
    Histories F g (s.bind target n) := by
  have hf := s.bind_sameFrame target n
  refine ⟨fun {id k c} hid hk hd => ?_, fun hlt hdv hid hname hd =>
    h.recorded hlt hdv (hf.isRegister.1 hid) (hname.trans (hf.name _)) hd, h.links⟩
  rcases Store.node_bind_cases hk with ⟨rfl, rfl⟩ | ⟨-, hk⟩
  · exact hn hd
  · exact h.bound (hf.isRegister.1 hid) hk hd

/-- A derivation draws on what its sources draw on, also when it is found: a source that is not
compared by node was read from the register itself. -/
lemma derive (h : Histories F g s) (hfit : Fits g s) (hl : s.Laid) (ht : s.IsRegister target)
    (context label : String) {links : List Link} (v : Value)
    (hlinks : ∀ l ∈ links, l.node < g.size ∧ ∀ {c}, g.Draws c l.node → F target c) :
    let x := g.derive context (s.operand target).name label links v
    Histories F x.2 s ∧ ∀ {c}, x.2.Draws c x.1 → F target c := by
  intro x
  have hextends : g.Extends x.2 := g.derive_extends ..
  rcases g.derive_cases context (s.operand target).name label links v with ⟨hg, hlt, hfound⟩ | hpush
  · -- a derivation that is found has the identities asked for, but maybe other sources
    refine ⟨hg ▸ h, fun {c} hd => ?_⟩
    rw [show x.2 = g from hg] at hd
    obtain ⟨dv, ho, -, -, hperm, -⟩ := Graph.isDerivedAs_iff.1 hfound
    have hdv : (g.node x.1).derivation? = some dv := by rw [Node.derivation?, ho]
    obtain ⟨k, hk, hdk⟩ := hd.of_derivation hdv
    obtain ⟨p, hp, hcase⟩ := h.links hlt hdv hk
    obtain ⟨l, hl', hlp⟩ := List.mem_map.1 (hperm.mem_iff.1 hp)
    rcases g.identity_cases (s.operand target).name l with hid | ⟨hname, w, shape, hid⟩
    · -- compared by node
      rw [← hlp, hid] at hcase
      rcases hcase with hnode | ⟨-, w, shape, hcarried⟩
      · cases hnode
        exact (hlinks l hl').2 hdk
      · cases hcarried
    · -- read from the register itself
      rw [← hlp, hid] at hcase
      rcases hcase with hnode | ⟨hnode, -⟩
      · cases hnode
      · exact h.recorded hlt hdv ht (hnode.symm.trans hname) hd
  · -- a derivation that is added has just the sources asked for
    have hx : x = g.push (g.derived context (s.operand target).name label links v) := hpush
    have hnew : ∀ {n}, g.size ≤ n → n < x.2.size → n = g.size ∧ x.2.node n =
        g.derived context (s.operand target).name label links v := by
      intro n hge hlt
      rw [hx, Graph.size_push] at hlt
      have heq : n = g.size := by omega
      rw [heq, hx]
      exact ⟨rfl, g.node_push_size _⟩
    have hdraws : ∀ {n c}, g.size ≤ n → n < x.2.size → x.2.Draws c n → F target c := by
      intro n c hge hlt hd
      have hdv : (x.2.node n).derivation? = some ⟨context, label, links.map Link.node,
          links.map (g.identity (s.operand target).name)⟩ := by rw [(hnew hge hlt).2]; rfl
      obtain ⟨k, hk, hdk⟩ := hd.of_derivation hdv
      obtain ⟨l, hl', rfl⟩ := List.mem_map.1 hk
      obtain ⟨hlt', hflow⟩ := hlinks l hl'
      exact hflow (hextends.draws hfit.sources hlt' hdk)
    refine ⟨h.extend hfit hextends (fun {id n dv c} hge hlt _ hid hname hd => ?_)
      fun {n dv k} hge hlt hdv hk => ?_, fun hd => ?_⟩
    · rw [(hnew hge hlt).2] at hname
      rw [← hl.register_unique ht hid hname]
      exact hdraws hge hlt hd
    · rw [(hnew hge hlt).2] at hdv ⊢
      cases hdv
      obtain ⟨l, hl', rfl⟩ := List.mem_map.1 hk
      refine ⟨_, List.mem_map_of_mem hl', ?_⟩
      rcases g.identity_cases (s.operand target).name l with hid | ⟨hname, w, shape, hid⟩
      · exact .inl (by rw [hid])
      · exact .inr ⟨by rw [hid]; exact hname, w, shape, by rw [hid]⟩
    · have hlt : x.1 < x.2.size := g.derive_lt ..
      rw [hx] at hlt
      exact hdraws (Nat.le_of_eq (by rw [hx]; rfl)) (by rw [hx]; exact hlt) hd

lemma records {s' : Store} (h : Histories F g s) (hfit : Fits g s) (hl : s.Laid)
    (hr : Records d g s g' s') (htarget : ∀ target, d.target? = some target → s.IsRegister target)
    (hreadings : ∀ r ∈ d.readings, r.node < g.size ∧ ∀ target, d.target? = some target →
      ∀ {c}, g.Draws c r.node → F target c) : Histories F g' s' := by
  cases hr with
  | nothing | void => exact h
  | source => exact h.bind ((hreadings _ (by simp [Decision.readings])).2 _ rfl)
  | @constant target v =>
    refine (h.grow hfit (g.constant_grows v)).bind fun hd => ?_
    have hc := (g.node_constant v).1
    rw [hd.not_constant] at hc
    cases hc
  | @derived target op rs _ _ context _ hr =>
    have hlinks : ∀ l ∈ rs.map Reading.link, l.node < g.size ∧ ∀ {c}, g.Draws c l.node →
        F target c := by
      intro l hl'
      obtain ⟨r, hr', rfl⟩ := List.mem_map.1 hl'
      exact ⟨(hreadings r hr').1, (hreadings r hr').2 target rfl⟩
    obtain ⟨hderive, hdraws⟩ := h.derive hfit hl (htarget _ rfl) context op.text
      (s.operand target).recorded hlinks
    rw [hr]
    exact hderive.bind hdraws
  | copy hout | copyConstant hout =>
    exact absurd hout (htarget _ rfl).isStorage.not_output
  | branch => exact absurd rfl (htarget _ rfl).1

end Histories

/-! ### Steps -/

/-- Flat-line code decides on what it writes, and from what stands in its slots. -/
lemma Planned.of_flat {t : Tracker} (h : Planned i t s g d e) (hi : i.Flat s) :
    (∀ target, d.target? = some target → i.Writes target) ∧
      ∀ r ∈ d.readings, ∃ slot, slot ≠ .dst ∧ ∃ id ∈ i.id? slot, r.Of g s id := by
  obtain ⟨hjcc, hldm, hstm⟩ := hi.opcode
  have hwrites : ∀ {dst : OperandId} {o : Outcome}, i.opcode.writesDst = true →
      i.id? .dst = some dst → ∀ target, (Decision.derive dst o).target? = some target →
      i.Writes target := by
    rintro dst o hop hdst _ ⟨⟩
    exact ⟨hop, hdst⟩
  cases h with
  | binary hop ha hb hdst _ hx hy =>
    refine ⟨hwrites (by rw [hop]; rfl) hdst, fun r hr => ?_⟩
    rcases readings_ofBinary hr with rfl | rfl
    · exact ⟨.a, by decide, _, ha, hx⟩
    · exact ⟨.b, by decide, _, hb, hy⟩
  | str hop ha hdst hx =>
    refine ⟨hwrites (by rw [hop]; rfl) hdst, fun r hr => ?_⟩
    rw [Decision.readings, List.mem_singleton] at hr
    exact ⟨.a, by decide, _, ha, hr ▸ hx⟩
  | bisz hop ha hdst hx =>
    refine ⟨hwrites (by rw [hop]; rfl) hdst, fun r hr => ?_⟩
    rw [readings_ofTest hr]
    exact ⟨.a, by decide, _, ha, hx⟩
  | undef hop hdst => exact ⟨hwrites (by rw [hop]; rfl) hdst, fun r hr => by cases hr⟩
  | nop | unkn => exact ⟨fun _ ht => (by cases ht), fun _ hr => by cases hr⟩
  | ldm hop => exact absurd hop hldm
  | stm hop | stmAstray hop => exact absurd hop hstm
  | branch hop | known hop => exact absurd hop hjcc

section Step

variable {F F' : OperandId → Nat → Prop}

/-- What a reading draws on is the channel that it was read from, or has flowed into the operand. -/
lemma Histories.reading (h : Histories F m.observer.graph m.store) (hfit : m.Fit)
    (hg : m.observer.graph.Extends g) (hr : r.Of g m.store id)
    (hid : m.store.IsRegister id ∨ (m.store.operand id).kind.isConstant = true ∨
      m.store.IsInput id) (hd : g.Draws c r.node) :
    (m.store.operand id).kind = .input c ∨ F id c := by
  cases hn : (m.store.operand id).node with
  | some n =>
    right
    have hw := hfit.fits.writable hn
    rw [hr.bound hn] at hd
    rcases hid with hid | hc | ⟨c', hc'⟩
    · exact h.bound hid hn (hg.draws hfit.fits.sources (hfit.fits.bound hn) hd)
    · cases hk : (m.store.operand id).kind with
      | constant => rw [Operand.isWritable, hk] at hw; cases hw
      | register | memory | input | output => rw [hk] at hc; cases hc
    · rw [Operand.isWritable, hc'] at hw
      cases hw
  | none =>
    left
    cases hk : (m.store.operand id).isKnown with
    | true =>
      have hc := (hr.known hn hk).1
      rw [hd.not_constant] at hc
      cases hc
    | false =>
      have hleaf := hr.leaf hn hk
      cases hd with
      | leaf _ hname =>
        rw [hleaf] at hname
        replace hname : (m.store.operand id).name = (Kind.input c).name := hname
        rcases hid with ⟨-, -, name, hreg⟩ | hc | ⟨c', hc'⟩
        · rw [Operand.isKnown, hreg] at hk
          cases hk
        · cases hkind : (m.store.operand id).kind with
          | constant => rw [Operand.isKnown, hkind] at hk; cases hk
          | register | memory | input | output => rw [hkind] at hc; cases hc
        · rw [Operand.name, hc'] at hname
          rw [hc', Kind.input_name_injective hname]
      | source hk _ =>
        rw [Node.sources, hleaf] at hk
        cases hk

/-- A step brings in nothing but what stands in the slots of its instruction. -/
lemma Done.histories (h : Done m m' g d e) (hfit : m.Fit) (hi : m.next.Flat m.store)
    (hF : Histories F m.observer.graph m.store) (hkeep : ∀ {id c}, F id c → F' id c)
    (hfeed : ∀ {id c}, m.next.Writes id → (∃ slot, slot ≠ .dst ∧ ∃ src ∈ m.next.id? slot,
      (m.store.operand src).kind = .input c ∨ F src c) → F' id c) :
    Histories F' m'.observer.graph m'.store := by
  obtain ⟨hwrites, hreadings⟩ := h.planned.of_flat hi
  obtain ⟨u, v, hs, hf, hr⟩ := h.effect
  have hframe : m.store.SameFrame v := hs.sameFrame.trans hf.sameFrame
  have hgrown := (hF.grow hfit.fits h.grows).mono hkeep
  refine (hgrown.sameFrame hframe fun hn => hs.node (by rwa [hf.node] at hn)).records
    (((hfit.fits.grow h.grows).steady hs).follows hf) (hframe.laid hfit.laid) hr
    (fun target ht => ?_) fun r hr' => ?_
  · -- what is written is neither a constant nor an input channel
    have hw := h.target_writable hfit.laid ht
    rw [hframe.isRegister]
    rcases hi.operand .dst target (hwrites target ht).2 with hreg | hc | ⟨c, hc⟩
    · exact hreg
    · cases hk : (m.store.operand target).kind with
      | constant => rw [Operand.isWritable, hk] at hw; cases hw
      | register | memory | input | output => rw [hk] at hc; cases hc
    · rw [Operand.isWritable, hc] at hw
      cases hw
  · obtain ⟨slot, hslot, id, hid, hof⟩ := hreadings r hr'
    refine ⟨hof.lt, fun target ht {c} hd => hfeed (hwrites target ht) ⟨slot, hslot, id, hid, ?_⟩⟩
    exact hF.reading hfit h.grows.toExtends hof (hi.operand slot id hid) hd

end Step

namespace Machine

lemma histories_after (hfit : m.Fit) (hi : ∀ i ∈ m.program, i.Flat m.store)
    (hstart : Histories (m.Flows 0) m.observer.graph m.store) (n : Nat) :
    Histories (m.Flows n) (m.after n).observer.graph (m.after n).store := by
  induction n with
  | zero => exact hstart
  | succ n ih =>
    have hfit' := hfit.after n
    have hnext : (m.after n).next.Flat (m.after n).store :=
      (hfit.next_of_all hi (Instruction.flat_unknown _) n).sameFrame (m.sameFrame_after n)
    have htracked := hfit'.tracked
    show Histories (m.Flows (n + 1)) (m.after n).step.2.observer.graph (m.after n).step.2.store
    generalize hm' : (m.after n).step.2 = m' at htracked ⊢
    generalize hr : (m.after n).step.1 = r at htracked
    cases htracked with
    | fault f _ hs hg =>
      exact ((ih.grow hfit'.fits hg).sameFrame hs.sameFrame hs.node).mono .inl
    | done h =>
      exact h.histories hfit' hnext ih .inl fun hw hsrc => .inr ⟨⟨_, hr⟩, hw, hsrc⟩

/-- **No foreign history**: in straight-line code over registers, constants and input channels, the
channels that the node bound to a register is derived from are channels that have flowed into that
register, however nodes are shared. -/
theorem histories_own {s : Store} {program : String} (hsrc : s.source.Truthful) (hl : s.Laid)
    (hu : s.Unbound) (hload : loadText { store := s, observer := {} } program = (.ok (), m))
    (hi : ∀ i ∈ m.program, i.Flat m.store) (n : Nat) (hid : m.store.IsRegister id)
    (hk : ((m.after n).store.operand id).node = some k)
    (hdraws : (m.after n).observer.graph.Draws c k) : m.Flows n id c := by
  obtain ⟨hfit, hunbound, hobserver, -, -⟩ := fit_of_loadText hsrc hl hu hload
  have hstart : Histories (m.Flows 0) m.observer.graph m.store := by
    rw [hobserver]
    refine ⟨fun _ hn => ?_, fun hlt => absurd hlt (Nat.not_lt_zero _),
      fun hlt => absurd hlt (Nat.not_lt_zero _)⟩
    rw [hunbound] at hn
    cases hn
  exact (histories_after hfit hi hstart n).bound
    ((m.sameFrame_after n).isRegister.2 hid) hk hdraws

/-- A copy of a register that has been counted up from a channel. -/
theorem histories_own_count :
    let s : Store :=
      { layout := { registers := ["A", "B"], inputs := 2 }
        operands := #[{ kind := .register pcName }, { kind := .register "A" },
          { kind := .register "B" }, { kind := .input 0 }, { kind := .input 1 }]
        source := .queues [[2], [7]] }
    let program := "STR IN1, , A\nADD A, %1, A\nADD A, %1, A\nSTR A, , B"
    let m := (loadText { store := s, observer := ({} : Tracker) } program).2
    (s.source.Truthful ∧ s.Laid ∧ s.Unbound ∧
      loadText { store := s, observer := {} } program = (.ok (), m) ∧
      (∀ i ∈ m.program, i.Flat m.store) ∧ m.store.IsRegister 2 ∧
      ((m.after 4).store.operand 2).node = some 3 ∧ (m.after 4).observer.graph.Draws 1 3) ∧
      m.Flows 4 2 1 := by
  intro s program m
  have hsrc : s.source.Truthful := Source.queues_truthful _
  have hbuild : ({ registers := ["A", "B"], inputs := 2, source := .queues [[2], [7]] } :
      Config).build = .ok s := rfl
  obtain ⟨hl, hu⟩ := Config.laid_of_build hbuild
  have hload : loadText { store := s, observer := {} } program = (.ok (), m) :=
    Prod.ext (by decide +kernel) rfl
  have hi : ∀ i ∈ m.program, i.Flat m.store := by decide +kernel
  have hid : m.store.IsRegister 2 := by decide +kernel
  have hk : ((m.after 4).store.operand 2).node = some 3 := by decide +kernel
  have hdraws : (m.after 4).observer.graph.Draws 1 3 := by
    have hleaf : (m.after 4).observer.graph.Draws 1 0 :=
      .leaf (show ((m.after 4).observer.graph.node 0).origin = .leaf true by decide +kernel)
        (by decide +kernel)
    have hsum : (m.after 4).observer.graph.Draws 1 2 := .source (by decide +kernel) hleaf
    exact .source (by decide +kernel) hsum
  exact ⟨⟨hsrc, hl, hu, hload, hi, hid, hk, hdraws⟩,
    histories_own hsrc hl hu hload hi 4 hid hk hdraws⟩

end Machine

end Lineage
