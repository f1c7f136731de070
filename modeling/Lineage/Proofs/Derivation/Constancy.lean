import Lineage.Proofs.Derivation.Fitting
import Lineage.Proofs.Derivation.Folding

/-!
Operands bound to constants.

A register or a memory cell that is bound to a constant should hold it. Three kinds of steps break
this, all of them because a decision rests on values that the instruction does not see: an XOR of
two values from one node that are read one after the other, a copy of the program counter, which
has moved on since a node was bound to it, and a store that takes its value and its address from
one channel. Nothing else does.
-/

namespace Lineage

variable {g : Graph} {s : Store} {id : OperandId} {r x y : Reading} {op : BinaryOp} {v w : Value}
  {o : Outcome} {m m' : Machine Tracker} {d : Decision} {e : Effect}

namespace Machine

/-- If the operand is bound to a constant, it holds it. -/
def TrueAt (m : Machine Tracker) (id : OperandId) : Prop :=
  ∀ n, (m.store.operand id).node = some n → (m.observer.graph.node n).isConstant = true →
    (m.store.operand id).value = (m.observer.graph.node n).value

/-- Every register other than the program counter and every memory cell that is bound to a constant
holds it. -/
def ConstantsTrue (m : Machine Tracker) : Prop := ∀ id, m.store.IsStorage id → m.TrueAt id

/-- The next step folds an XOR because it finds both sources at one node, which is no constant. -/
structure Cancels (m : Machine Tracker) (a b dst : OperandId) : Prop where
  opcode : m.next.opcode = .binary .xor
  a_eq : m.next.id? .a = some a
  b_eq : m.next.id? .b = some b
  dst_eq : m.next.id? .dst = some dst
  unknown : ({ m.observer with pending := none }.readings m.store a b).1.constant = false
  node : ({ m.observer with pending := none }.readings m.store a b).1.node =
    ({ m.observer with pending := none }.readings m.store a b).2.node

/-- What is cancelled is the operation of the step on its own sources. -/
lemma Cancels.eq_of_binary {a b dst a' b' dst' : OperandId} (h : m.Cancels a' b' dst')
    (hop : m.next.opcode = .binary op) (ha : m.next.id? .a = some a) (hb : m.next.id? .b = some b)
    (hdst : m.next.id? .dst = some dst)
    (hxy : { m.observer with pending := none }.readings m.store a b = (x, y)) :
    op = .xor ∧ a' = a ∧ b' = b ∧ dst' = dst ∧ x.constant = false ∧ x.node = y.node := by
  obtain ⟨hop', ha', hb', hdst', hunknown, hnode⟩ := h
  rw [hop] at hop'
  rw [ha] at ha'
  rw [hb] at hb'
  rw [hdst] at hdst'
  cases hop'
  cases ha'
  cases hb'
  cases hdst'
  rw [hxy] at hunknown hnode
  exact ⟨rfl, rfl, rfl, rfl, hunknown, hnode⟩

/-- The next step decides on a constant, or leaves one in place, that its effect does not agree
with. -/
inductive Slips (m : Machine Tracker) : Prop
  /-- A cancelled XOR whose sources are read with different values. -/
  | xor {a b dst : OperandId} (cancels : m.Cancels a b dst) (storage : m.store.IsStorage dst)
      (differ : m.store.shown a ≠ (m.store.read a).2.shown b)
  /-- A copy of the program counter, which is bound to a constant but has moved on. -/
  | counter {dst : OperandId} (dst_eq : m.next.id? .dst = some dst)
      (copy : m.next.opcode = .stm ∨ m.next.opcode = .str ∧ m.store.IsStorage dst)
      (a_eq : m.next.id? .a = some Store.pc) (stale : ¬ m.TrueAt Store.pc)
  /-- A store that reads its value and then its address from one channel, so that a cell is
  written that is not the one decided on. -/
  | astray {a dst cell : OperandId} {c : Nat} {n : NodeId} (opcode : m.next.opcode = .stm)
      (a_eq : m.next.id? .a = some a) (dst_eq : m.next.id? .dst = some dst)
      (a_input : (m.store.operand a).kind = .input c)
      (dst_input : (m.store.operand dst).kind = .input c)
      (cell_eq : m.store.memoryCell ((m.store.read a).2.shown dst) = .ok cell)
      (planned : m.store.memoryCell (m.store.shown dst) ≠ .ok cell)
      (node : (m.store.operand cell).node = some n)
      (constant : (m.observer.graph.node n).isConstant = true)
      (stale : m.store.shown a ≠ (m.observer.graph.node n).value)

end Machine

/-! ### Outcomes -/

/-- The outcome is no constant other than `v`. -/
def Outcome.Agrees (g : Graph) (v : Value) : Outcome → Prop
  | .source r => (g.node r.node).isConstant = true → v = (g.node r.node).value
  | .constant c => v = c
  | .derived _ _ => True
  | .nothing => False

lemma ofBinary_ne_nothing (hw : y.constant = true → w = y.value)
    (heval : op.eval x.value w = some v) : Outcome.ofBinary op x y ≠ .nothing := by
  intro ho
  have hfolds := Outcome.folds op x y
  rw [ho] at hfolds
  cases hfolds with
  | undefined _ hr hv =>
    rw [hw hr, hv] at heval
    cases heval

lemma ofTest_ne_nothing : Outcome.ofTest x ≠ .nothing := by
  unfold Outcome.ofTest
  split <;> exact nofun

/-- An operation goes wrong only where an XOR is cancelled whose sources differ. -/
lemma agrees_ofBinary (hx : x.constant = (g.node x.node).isConstant)
    (hy : y.constant = (g.node y.node).isConstant) (hw : y.constant = true → w = y.value)
    (heval : op.eval x.value w = some v) : (Outcome.ofBinary op x y).Agrees g v ↔
      ¬ (op = .xor ∧ x.node = y.node ∧ x.constant = false ∧ x.value ≠ w) := by
  have hfolds := Outcome.folds op x y
  generalize Outcome.ofBinary op x y = o at hfolds
  cases hfolds with
  | folded hl hr hv =>
    rw [hw hr, hv] at heval
    cases heval
    simp [Outcome.Agrees, hl]
  | undefined hl hr hv =>
    rw [hw hr, hv] at heval
    cases heval
  | same hu hn hi =>
    have hx' : x.constant = false :=
      Bool.eq_false_iff.2 fun h => hu ⟨h, by rw [hy, ← hn, ← hx, h]⟩
    rcases hi with rfl | rfl <;> simp [Outcome.Agrees, ← hx, hx']
  | cancelled hu hn hxor =>
    have hx' : x.constant = false :=
      Bool.eq_false_iff.2 fun h => hu ⟨h, by rw [hy, ← hn, ← hx, h]⟩
    subst hxor
    have hv : x.value ^^^ w = v := Option.some.inj heval
    simp [Outcome.Agrees, hx', hn, ← hv]
  | neutralLeft _ hl hr => simp [Outcome.Agrees, hl, ← hy, hr]
  | absorbedLeft _ hl hr ha =>
    rw [BinaryOp.eval_absorbing_left ha] at heval
    cases heval
    simp [Outcome.Agrees, hl]
  | linkedRight _ hl hr => simp [Outcome.Agrees, hl]
  | neutralRight hap hl hr =>
    simp only [Outcome.Agrees, ← hx, hl, Bool.false_eq_true, false_imp_iff, true_iff]
    exact fun h => (hap h.2.1).2.2 h.1
  | absorbedRight hap hl hr ha =>
    rw [hw hr, BinaryOp.eval_absorbing_right ha] at heval
    cases heval
    simp only [Outcome.Agrees, true_iff]
    exact fun h => (hap h.2.1).2.2 h.1
  | linkedLeft hap | linked hap =>
    simp only [Outcome.Agrees, true_iff]
    exact fun h => (hap h.2.1).2.2 h.1

/-! ### Readings -/

namespace Reading.Of

lemma not_constant_of_input (h : r.Of g m.store id) (hfit : m.Fit) (hin : m.store.IsInput id) :
    r.constant = false := by
  obtain ⟨c, hc⟩ := hin
  have hnode := hfit.fits.unbound (by rw [Operand.isWritable, hc])
  rw [h.constant, h.leaf hnode (by rw [Operand.isKnown, hc])]
  rfl

/-- A second source that is found at a constant is read with the value it is found with. -/
lemma shown_read (h : r.Of g m.store id) (hfit : m.Fit) (hc : r.constant = true)
    (a : OperandId) : (m.store.read a).2.shown id = r.value := by
  have hin : ¬ m.store.IsInput id := by
    intro hin
    rw [h.not_constant_of_input hfit hin] at hc
    cases hc
  rw [Store.shown_read hin, h.value]

lemma value_of_constant (h : r.Of g m.store id) (hg : m.observer.graph.Extends g) (hfit : m.Fit)
    (hm : m.ConstantsTrue) (hpc : id ≠ Store.pc) (hc : (g.node r.node).isConstant = true) :
    r.value = (g.node r.node).value := by
  cases hn : (m.store.operand id).node with
  | none =>
    cases hk : (m.store.operand id).isKnown with
    | true => exact (h.known hn hk).2.symm
    | false =>
      rw [h.leaf hn hk] at hc
      cases hc
  | some n =>
    have hnode := h.bound hn
    rw [hnode, hg.node (hfit.fits.bound hn)] at hc ⊢
    have hst : m.store.IsStorage id := by
      refine hfit.fits.isStorage hn hpc fun hout => ?_
      rw [hfit.fits.output hout hn] at hc
      cases hc
    rw [h.value, Store.shown_of_not_input hst.not_input]
    exact hm id hst n hn hc

end Reading.Of

/-! ### Steps -/

namespace Done

/-- Only what a step writes and what it gives a node to has to be looked at. -/
lemma constantsTrue_iff (h : Done m m' g d e) (hfit : m.Fit) (hm : m.ConstantsTrue) :
    m'.ConstantsTrue ↔ ∀ id, m.store.IsStorage id →
      (d.target? = some id ∨ ∃ v, e = .write id v) → m'.TrueAt id := by
  constructor
  · intro hm' id hst _
    exact hm' id (h.isStorage.2 hst)
  · intro htrue id hst
    rw [h.isStorage] at hst
    by_cases hid : d.target? = some id ∨ ∃ v, e = .write id v
    · exact htrue id hst hid
    · rw [not_or, not_exists] at hid
      intro n hn hc
      rw [h.node_other hst.not_input hid.1] at hn
      rw [h.node_eq (hfit.fits.bound hn)] at hc ⊢
      rw [h.value_other hst.1 hst.not_input hid.2]
      exact hm id hst n hn hc

lemma trueAt_target (h : Done m m' g (.derive id o) (.write id v)) (hst : m.store.IsStorage id)
    (ho : o ≠ .nothing) : m'.TrueAt id ↔ o.Agrees g v := by
  have hv := h.value_target hst.1 hst.2.1
  unfold Machine.TrueAt
  cases o with
  | source r =>
    obtain ⟨hg, hnode⟩ := h.node_source hst
    simp only [hnode, hv, hg, Option.some.injEq, forall_eq', Outcome.Agrees]
  | constant c =>
    obtain ⟨hg, hnode⟩ := h.node_constant hst
    obtain ⟨hconst, hval⟩ := g.node_constant c
    simp only [hnode, hv, hg, Option.some.injEq, forall_eq', hconst, hval, Outcome.Agrees,
      forall_const]
  | derived op rs =>
    obtain ⟨context, hg, hnode⟩ := h.node_derived hst
    simp only [hnode, hg, Option.some.injEq, forall_eq', Graph.node_derive_not_constant,
      Bool.false_eq_true, false_imp_iff, Outcome.Agrees]
  | nothing => exact absurd rfl ho

lemma constantsTrue_of_target (h : Done m m' g (.derive id o) (.write id v)) (hfit : m.Fit)
    (hm : m.ConstantsTrue) (ho : o ≠ .nothing) :
    m'.ConstantsTrue ↔ (m.store.IsStorage id → o.Agrees g v) := by
  rw [h.constantsTrue_iff hfit hm]
  constructor
  · intro htrue hst
    exact (h.trueAt_target hst ho).1 (htrue id hst (.inl rfl))
  · intro hag j hst hj
    have hid : id = j := by
      rcases hj with hj | ⟨w, hj⟩
      · exact Option.some.inj hj
      · exact (Effect.write.inj hj).1
    subst hid
    exact (h.trueAt_target hst ho).2 (hag hst)

/-- A cell that is written without being decided on keeps the node it has. -/
lemma constantsTrue_of_astray (h : Done m m' g d (.write id v)) (hfit : m.Fit)
    (hm : m.ConstantsTrue) (hst : m.store.IsStorage id)
    (hd : d = .nothing ∨ ∃ target r, d = .derive target (.source r) ∧ target ≠ id ∧
      (g.node r.node).isConstant = false) :
    m'.ConstantsTrue ↔ ∀ n, (m.store.operand id).node = some n →
      (m.observer.graph.node n).isConstant = true →
      v = (m.observer.graph.node n).value := by
  have htarget : d.target? ≠ some id := by
    rcases hd with rfl | ⟨target, r, rfl, hne, -⟩
    · exact nofun
    · exact fun h => hne (Option.some.inj h)
  have hnode := h.node_other hst.not_input htarget
  have hv := h.value_target hst.1 hst.2.1
  have hat : m'.TrueAt id ↔ ∀ n, (m.store.operand id).node = some n →
      (m.observer.graph.node n).isConstant = true → v = (m.observer.graph.node n).value := by
    unfold Machine.TrueAt
    rw [hnode, hv]
    refine forall_congr' fun n => imp_congr_right fun hn => ?_
    rw [h.node_eq (hfit.fits.bound hn)]
  rw [h.constantsTrue_iff hfit hm, ← hat]
  constructor
  · intro htrue
    exact htrue id hst (.inr ⟨v, rfl⟩)
  · intro hid j hj hcase
    rcases hcase with hj' | ⟨w, hj'⟩
    · -- the cell that was decided on is bound to what is no constant
      rcases hd with rfl | ⟨target, r, rfl, hne, hr⟩
      · cases hj'
      · cases hj'
        intro n hn hc
        obtain ⟨hg, hnode'⟩ := h.node_source hj
        rw [hnode'] at hn
        cases hn
        rw [hg, hr] at hc
        cases hc
    · cases hj'
      exact hid

lemma constantsTrue_of_idle (h : Done m m' g d e) (hfit : m.Fit) (hm : m.ConstantsTrue)
    (he : ∀ target v, e ≠ .write target v)
    (hd : ∀ target, d.target? = some target → ¬ m.store.IsStorage target) : m'.ConstantsTrue := by
  rw [h.constantsTrue_iff hfit hm]
  rintro id hst (htarget | ⟨v, hv⟩)
  · exact absurd hst (hd id htarget)
  · exact absurd hv (he id v)

/-! Each operation against the slips that it can make. -/

lemma constantsTrue_of_binary {a b dst : OperandId}
    (h : Done m m' g (.derive dst (.ofBinary op x y)) (.write dst v)) (hfit : m.Fit)
    (hm : m.ConstantsTrue) (hop : m.next.opcode = .binary op) (ha : m.next.id? .a = some a)
    (hb : m.next.id? .b = some b) (hdst : m.next.id? .dst = some dst)
    (hxy : { m.observer with pending := none }.readings m.store a b = (x, y))
    (hx : x.Of g m.store a) (hy : y.Of g m.store b)
    (heval : op.eval x.value ((m.store.read a).2.shown b) = some v) :
    m'.ConstantsTrue ↔ ¬ m.Slips := by
  have hw : y.constant = true → (m.store.read a).2.shown b = y.value := fun hc =>
    hy.shown_read hfit hc a
  have ho := ofBinary_ne_nothing hw heval
  rw [h.constantsTrue_of_target hfit hm ho, agrees_ofBinary hx.constant hy.constant hw heval]
  constructor
  · intro hag hslips
    cases hslips with
    | @xor a' b' dst' hc hst hdiffer =>
      obtain ⟨rfl, rfl, rfl, rfl, hunknown, hnode⟩ := hc.eq_of_binary hop ha hb hdst hxy
      exact hag hst ⟨rfl, hnode, hunknown, by rwa [hx.value]⟩
    | counter _ hcopy => rcases hcopy with h | ⟨h, -⟩ <;> rw [hop] at h <;> cases h
    | astray h => rw [hop] at h; cases h
  · rintro hslips hst ⟨rfl, hnode, hunknown, hdiffer⟩
    refine hslips (.xor ⟨hop, ha, hb, hdst, ?_, ?_⟩ hst (by rwa [← hx.value]))
    · rwa [hxy]
    · rwa [hxy]

/-- A copy agrees with its source except where that is a stale program counter. -/
lemma source_agrees {a : OperandId} (h : Done m m' g d e) (hfit : m.Fit) (hm : m.ConstantsTrue)
    (hx : x.Of g m.store a) :
    (Outcome.source x).Agrees g x.value ↔ (a = Store.pc → m.TrueAt Store.pc) := by
  by_cases hpc : a = Store.pc
  · subst hpc
    have hv : x.value = (m.store.operand Store.pc).value := by
      rw [hx.value, Store.shown_of_not_input hfit.laid.pc_not_input]
    simp only [forall_const, Machine.TrueAt, Outcome.Agrees]
    cases hn : (m.store.operand Store.pc).node with
    | none =>
      have hknown : (m.store.operand Store.pc).isKnown = true := by
        rw [Operand.isKnown, hfit.laid.kind_pc.2]
      simp [(hx.known hn hknown).2]
    | some n =>
      simp only [Option.some.injEq, forall_eq', hx.bound hn, hv,
        h.grows.toExtends.node (hfit.fits.bound hn)]
  · simp only [hpc, false_imp_iff, iff_true]
    exact fun hc => hx.value_of_constant h.grows.toExtends hfit hm hpc hc

lemma constantsTrue_of_str {a dst : OperandId}
    (h : Done m m' g (.derive dst (.source x)) (.write dst x.value)) (hfit : m.Fit)
    (hm : m.ConstantsTrue) (hop : m.next.opcode = .str) (ha : m.next.id? .a = some a)
    (hdst : m.next.id? .dst = some dst) (hx : x.Of g m.store a) :
    m'.ConstantsTrue ↔ ¬ m.Slips := by
  rw [h.constantsTrue_of_target hfit hm nofun, h.source_agrees hfit hm hx]
  constructor
  · intro hag hslips
    cases hslips with
    | xor hc => have hop' := hc.opcode; rw [hop] at hop'; cases hop'
    | counter hdst' hcopy ha' hstale =>
      rw [ha] at ha'
      rw [hdst] at hdst'
      cases ha'
      cases hdst'
      rcases hcopy with h | ⟨-, hst⟩
      · rw [hop] at h
        cases h
      · exact hstale (hag hst rfl)
    | astray h => rw [hop] at h; cases h
  · intro hslips hst hpc
    by_contra hstale
    exact hslips (.counter hdst (.inr ⟨hop, hst⟩) (hpc ▸ ha) hstale)

lemma constantsTrue_of_stm {a dst cell : OperandId}
    (h : Done m m' g (.derive cell (.source x)) (.write cell x.value)) (hfit : m.Fit)
    (hm : m.ConstantsTrue) (hop : m.next.opcode = .stm) (ha : m.next.id? .a = some a)
    (hdst : m.next.id? .dst = some dst) (hst : m.store.IsStorage cell)
    (hplanned : m.store.memoryCell (m.store.shown dst) = .ok cell)
    (hcell : m.store.memoryCell ((m.store.read a).2.shown dst) = .ok cell)
    (hx : x.Of g m.store a) : m'.ConstantsTrue ↔ ¬ m.Slips := by
  rw [h.constantsTrue_of_target hfit hm nofun, h.source_agrees hfit hm hx]
  constructor
  · intro hag hslips
    cases hslips with
    | xor hc => have hop' := hc.opcode; rw [hop] at hop'; cases hop'
    | counter _ _ ha' hstale =>
      rw [ha] at ha'
      cases ha'
      exact hstale (hag hst rfl)
    | astray _ ha' hdst' _ _ hcell' hplanned' =>
      rw [ha] at ha'
      rw [hdst] at hdst'
      cases ha'
      cases hdst'
      rw [hcell] at hcell'
      cases hcell'
      exact hplanned' hplanned
  · intro hslips _ hpc
    by_contra hstale
    exact hslips (.counter hdst (.inl hop) (hpc ▸ ha) hstale)

/-- A store to another cell than the one decided on takes value and address from one channel. -/
lemma constantsTrue_of_elsewhere {a dst cell : OperandId}
    (h : Done m m' g d (.write cell (m.store.shown a))) (hfit : m.Fit)
    (hsep : m.store.source.Separate) (hm : m.ConstantsTrue) (hop : m.next.opcode = .stm)
    (ha : m.next.id? .a = some a) (hdst : m.next.id? .dst = some dst)
    (hplanned : m.store.memoryCell (m.store.shown dst) ≠ .ok cell)
    (hcell : m.store.memoryCell ((m.store.read a).2.shown dst) = .ok cell)
    (hd : d = .nothing ∨ ∃ target r, d = .derive target (.source r) ∧ target ≠ cell ∧
      r.Of g m.store a) : m'.ConstantsTrue ↔ ¬ m.Slips := by
  -- the address has changed since the decision, so both were read from one channel
  obtain ⟨c, hac, hdc⟩ : ∃ c, (m.store.operand a).kind = .input c ∧
      (m.store.operand dst).kind = .input c := by
    by_contra hne
    rw [Store.shown_read_of_separate hsep fun c hac hdc => hne ⟨c, hac, hdc⟩] at hcell
    exact hplanned hcell
  have hst := (hfit.laid.kind_memoryCell hcell).1
  rw [h.constantsTrue_of_astray hfit hm hst]
  · constructor
    · intro hag hslips
      cases hslips with
      | xor hc => have hop' := hc.opcode; rw [hop] at hop'; cases hop'
      | counter _ _ ha' =>
        rw [ha] at ha'
        cases ha'
        exact hfit.laid.pc_not_input ⟨c, hac⟩
      | astray _ ha' hdst' _ _ hcell' _ hn hc hstale =>
        rw [ha] at ha'
        rw [hdst] at hdst'
        cases ha'
        cases hdst'
        rw [hcell] at hcell'
        cases hcell'
        exact hstale (hag _ hn hc)
    · intro hslips n hn hc
      by_contra hstale
      exact hslips (.astray hop ha hdst hac hdc hcell hplanned hn hc hstale)
  · rcases hd with hd | ⟨target, r, hd, hne, hr⟩
    · exact .inl hd
    · refine .inr ⟨target, r, hd, hne, ?_⟩
      rw [← hr.constant]
      exact hr.not_constant_of_input hfit ⟨c, hac⟩

lemma not_slips (hb : m.next.opcode ≠ .binary .xor) (hstm : m.next.opcode ≠ .stm)
    (hstr : m.next.opcode ≠ .str) : ¬ m.Slips := by
  intro hslips
  cases hslips with
  | xor hc => exact hb hc.opcode
  | counter _ hcopy =>
    rcases hcopy with h | ⟨h, -⟩
    · exact hstm h
    · exact hstr h
  | astray h => exact hstm h

lemma constantsTrue_iff_not_slips (h : Done m m' g d e) (hfit : m.Fit)
    (hsep : m.store.source.Separate) (hm : m.ConstantsTrue) : m'.ConstantsTrue ↔ ¬ m.Slips := by
  have hplanned := h.planned
  cases hplanned with
  | binary hop ha hb hdst hxy hx hy heval =>
    exact h.constantsTrue_of_binary hfit hm hop ha hb hdst hxy hx hy heval
  | ldm hop ha hdst hcell hx =>
    have hpc := (hfit.laid.kind_memoryCell hcell).1.1
    refine iff_of_true ((h.constantsTrue_of_target hfit hm nofun).2 fun _ hc => ?_)
      (not_slips (by simp [hop]) (by simp [hop]) (by simp [hop]))
    exact hx.value_of_constant h.grows.toExtends hfit hm hpc hc
  | @stm a dst planned cell x hop ha hdst hplanned hcell hx =>
    by_cases heq : planned = cell
    · subst heq
      have hst := (hfit.laid.kind_memoryCell hcell).1
      exact h.constantsTrue_of_stm hfit hm hop ha hdst hst hplanned hcell hx
    · -- the address is another one by now, as it comes from the channel of the value
      rw [hx.value] at h
      refine h.constantsTrue_of_elsewhere hfit hsep hm hop ha hdst ?_ hcell
        (.inr ⟨planned, x, rfl, heq, hx⟩)
      rw [hplanned]
      exact fun he => heq (Except.ok.inj he)
  | stmAstray hop ha hdst hplanned hcell =>
    refine h.constantsTrue_of_elsewhere hfit hsep hm hop ha hdst ?_ hcell (.inl rfl)
    rw [hplanned]
    exact nofun
  | str hop ha hdst hx => exact h.constantsTrue_of_str hfit hm hop ha hdst hx
  | @bisz a dst x hop ha hdst hx =>
    refine iff_of_true ((h.constantsTrue_of_target hfit hm ofTest_ne_nothing).2 fun _ => ?_)
      (not_slips (by simp [hop]) (by simp [hop]) (by simp [hop]))
    unfold Outcome.ofTest
    split
    · exact rfl
    · exact trivial
  | undef hop hdst =>
    exact iff_of_true ((h.constantsTrue_of_target hfit hm nofun).2 fun _ => trivial)
      (not_slips (by simp [hop]) (by simp [hop]) (by simp [hop]))
  | branch hop _ _ _ _ hidle =>
    refine iff_of_true (h.constantsTrue_of_idle hfit hm hidle fun target ht hst => ?_)
      (not_slips (by simp [hop]) (by simp [hop]) (by simp [hop]))
    cases ht
    exact hst.1 rfl
  | known hop hidle =>
    exact iff_of_true (h.constantsTrue_of_idle hfit hm hidle nofun)
      (not_slips (by simp [hop]) (by simp [hop]) (by simp [hop]))
  | nop hop =>
    exact iff_of_true (h.constantsTrue_of_idle hfit hm nofun nofun)
      (not_slips (by simp [hop]) (by simp [hop]) (by simp [hop]))
  | unkn hop =>
    exact iff_of_true (h.constantsTrue_of_idle hfit hm nofun nofun)
      (not_slips (by simp [hop]) (by simp [hop]) (by simp [hop]))

end Done

/-! ### Runs -/

lemma Tracked.constantsTrue_of_fault {f : Fault} (ht : Tracked m m' (.error f)) (hfit : m.Fit)
    (hm : m.ConstantsTrue) : m'.ConstantsTrue := by
  have hkinds := ht.constant
  cases ht with
  | fault f _ hs hg =>
    intro id hst n hn hc
    have hst' : m.store.IsStorage id := by
      simpa only [Store.IsStorage, hs.size, hs.kind] using hst
    have hn' := hs.node hn
    rw [hg.node (hfit.fits.bound hn')] at hc ⊢
    rw [hs.other hst'.not_input]
    exact hm id hst' n hn' hc

namespace Machine

/-- **When constants are true**: on channels with queues, in every state of every decoded program
the registers and cells that are bound to constants hold them, exactly if no step on the way that
succeeds is one of the three kinds of slips. -/
theorem constants_true_iff {s : Store} {values : List (List Value)} {program : String}
    (hsrc : s.source = .queues values) (hl : s.Laid) (hu : s.Unbound)
    (h : loadText { store := s, observer := {} } program = (.ok (), m)) :
    (∀ n, (m.after n).ConstantsTrue) ↔
      ∀ n running, (m.after n).step.1 = .ok running → ¬ (m.after n).Slips := by
  have htruthful : s.source.Truthful := by
    rw [hsrc]
    exact Source.queues_truthful values
  obtain ⟨hfit, hunbound, -, hsource, -⟩ := fit_of_loadText htruthful hl hu h
  have hsep : ∀ n, (m.after n).store.source.Separate := by
    intro n
    rw [(hfit.constant n).2.1, hsource, hsrc]
    exact Source.queues_separate values
  constructor
  · intro hall n running hr
    obtain ⟨g, d, e, hdone, -⟩ := (hr ▸ (hfit.after n).tracked).done_of_ok
    exact (hdone.constantsTrue_iff_not_slips (hfit.after n) (hsep n) (hall n)).1 (hall (n + 1))
  · intro hslips n
    induction n with
    | zero =>
      intro id hst k hk
      simp only [after, hunbound id, reduceCtorEq] at hk
    | succ n ih =>
      have ht := (hfit.after n).tracked
      generalize hr : (m.after n).step.1 = r at ht
      cases ht with
      | fault f hp hs hg =>
        exact (Tracked.fault f hp hs hg).constantsTrue_of_fault (hfit.after n) ih
      | done hdone =>
        exact (hdone.constantsTrue_iff_not_slips (hfit.after n) (hsep n) ih).2 (hslips n _ hr)

/-- A register that is filled from a channel, counted down and tested. -/
theorem constants_true_iff_countdown :
    let s : Store :=
      { layout := { registers := ["A"], inputs := 1 }
        operands := #[{ kind := .register pcName }, { kind := .register "A" }, { kind := .input 0 }]
        source := .queues [[2]] }
    let m := (loadText { store := s, observer := ({} : Tracker) }
      "STR IN0, , A\nSUB A, %1, A\nJCC A, , %1").2
    (s.source = .queues [[2]] ∧ s.Laid ∧ s.Unbound ∧
        loadText { store := s, observer := {} } "STR IN0, , A\nSUB A, %1, A\nJCC A, , %1" =
          (.ok (), m)) ∧
      ((∀ n, (m.after n).ConstantsTrue) ↔
        ∀ n running, (m.after n).step.1 = .ok running → ¬ (m.after n).Slips) := by
  intro s m
  have hbuild : ({ registers := ["A"], inputs := 1, source := .queues [[2]] } : Config).build =
      .ok s := rfl
  obtain ⟨hl, hu⟩ := Config.laid_of_build hbuild
  have hload : loadText { store := s, observer := {} } "STR IN0, , A\nSUB A, %1, A\nJCC A, , %1" =
      (.ok (), m) := Prod.ext (by decide +kernel) rfl
  exact ⟨⟨rfl, hl, hu, hload⟩, constants_true_iff rfl hl hu hload⟩

/-- Constants are not true at all times: 1 and 2 are read in turn and combined to 3, but the result
is bound to the constant 0. -/
theorem constants_not_always_true :
    ¬ ∀ (c : Config) (s : Store) (values : List (List Value)) (program : String)
      (m : Machine Tracker) (n : Nat), c.source = .queues values → c.build = .ok s →
      loadText { store := s, observer := {} } program = (.ok (), m) →
      (m.after n).ConstantsTrue := by
  intro hall
  have htrue := hall { registers := ["A"], inputs := 1, source := .queues [[1, 2]] } _ _
    "XOR IN0, IN0, A" _ 1 rfl rfl (Prod.ext (by decide +kernel) rfl) 1 (by decide +kernel) 1
    (by decide +kernel) (by decide +kernel)
  revert htrue
  decide +kernel

end Machine

end Lineage
