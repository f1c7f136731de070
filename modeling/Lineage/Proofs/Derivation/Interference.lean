import Lineage.Proofs.Derivation.Constancy
import Lineage.Proofs.Derivation.Parallel

/-!
Two runs of one program on different inputs.

In straight-line code with literal addresses both runs go through the same instructions. What the
first run finds at a constant has the same value in the second, as long as no XOR is cancelled in
the first run that comes out differently in the second: that both of its sources are at one node is
known of the first run only.
-/

namespace Lineage

variable {g g₁ g₂ : Graph} {t : Tracker} {s : Store} {i : Instruction} {id : OperandId}
  {r : Reading} {v : Value} {d d₁ d₂ : Decision} {e e₁ e₂ : Effect}
  {m m' m₁ m₁' m₂ m₂' : Machine Tracker}

namespace Machine

/-- The tracker takes the value of the operand for a constant. -/
def Known (m : Machine Tracker) (id : OperandId) : Prop :=
  match (m.store.operand id).node with
  | some n => (m.observer.graph.node n).isConstant = true
  | none => (m.store.operand id).isKnown = true

/-- What is known in the first machine is the same in the second. -/
def Shadows (m₁ m₂ : Machine Tracker) : Prop :=
  ∀ id, m₁.Known id → (m₂.store.operand id).value = (m₁.store.operand id).value

lemma known_of_node {n : NodeId} (hn : (m.store.operand id).node = some n) :
    m.Known id ↔ (m.observer.graph.node n).isConstant = true := by
  rw [Known, hn]

lemma known_of_unbound (hn : (m.store.operand id).node = none) :
    m.Known id ↔ (m.store.operand id).isKnown = true := by
  rw [Known, hn]

lemma Known.not_input (h : m.Known id) (hfit : m.Fit) : ¬ m.store.IsInput id := by
  rintro ⟨c, hc⟩
  have hn := hfit.fits.unbound (by rw [Operand.isWritable, hc])
  rw [known_of_unbound hn, Operand.isKnown, hc] at h
  cases h

lemma Fit.known_of_constant (hfit : m.Fit) (hk : (m.store.operand id).kind.isConstant = true) :
    m.Known id := by
  cases hkind : (m.store.operand id).kind with
  | constant c =>
    have hn := hfit.fits.unbound (by rw [Operand.isWritable, hkind])
    rw [known_of_unbound hn, Operand.isKnown, hkind]
  | register | memory | input | output => rw [hkind] at hk; cases hk

lemma Shadows.shown (hsh : Shadows m₁ m₂) (hp : Parallel m₁ m₂) (hfit : m₁.Fit)
    (hk : m₁.Known id) : ¬ m₂.store.IsInput id ∧ m₂.store.shown id = m₁.store.shown id := by
  have hin := hk.not_input hfit
  have hin' : ¬ m₂.store.IsInput id := by rwa [Store.IsInput, hp.kind]
  rw [Store.shown_of_not_input hin, Store.shown_of_not_input hin']
  exact ⟨hin', hsh id hk⟩

/-- A literal is the same for both machines, whatever is read before it. -/
lemma Shadows.literal (hsh : Shadows m₁ m₂) (hp : Parallel m₁ m₂) (hfit : m₁.Fit)
    (hk : (m₁.store.operand id).kind.isConstant = true) (a : OperandId) :
    (m₁.store.read a).2.shown id = m₁.store.shown id ∧
      (m₂.store.read a).2.shown id = m₁.store.shown id ∧
      m₂.store.shown id = m₁.store.shown id := by
  have hknown := hfit.known_of_constant hk
  obtain ⟨hin, hshown⟩ := hsh.shown hp hfit hknown
  rw [Store.shown_read (hknown.not_input hfit), Store.shown_read hin, hshown]
  exact ⟨rfl, rfl, rfl⟩

end Machine

lemma Reading.Of.known_of_constant (h : r.Of g m.store id) (hg : m.observer.graph.Extends g)
    (hfit : m.Fit) (hc : (g.node r.node).isConstant = true) : m.Known id := by
  cases hn : (m.store.operand id).node with
  | some n =>
    rw [h.bound hn, hg.node (hfit.fits.bound hn)] at hc
    exact (Machine.known_of_node hn).2 hc
  | none =>
    cases hk : (m.store.operand id).isKnown with
    | true => exact (Machine.known_of_unbound hn).2 hk
    | false =>
      rw [h.leaf hn hk] at hc
      cases hc

/-- A source that the first machine finds at a constant is shown by the second machine too. -/
lemma Reading.Of.shown_of_constant (h : r.Of g m₁.store id) (hg : m₁.observer.graph.Extends g)
    (hfit : m₁.Fit) (hp : m₁.Parallel m₂) (hsh : m₁.Shadows m₂)
    (hc : (g.node r.node).isConstant = true) :
    m₂.store.shown id = r.value ∧ ∀ a, (m₂.store.read a).2.shown id = r.value := by
  obtain ⟨hin, hshown⟩ := hsh.shown hp hfit (h.known_of_constant hg hfit hc)
  refine ⟨by rw [hshown, h.value], fun a => ?_⟩
  rw [Store.shown_read hin, hshown, h.value]

/-! ### Steps -/

/-- The outcome is a constant, or the node of one. -/
def Outcome.IsConstant (g : Graph) : Outcome → Prop
  | .source r => (g.node r.node).isConstant = true
  | .constant _ => True
  | .derived _ _ | .nothing => False

namespace Done

/-- Two operations whose first outcome is constant have one value, unless the first is an XOR that
is cancelled. -/
lemma agree_binary {op : BinaryOp} {a b dst : OperandId} {x y : Reading} {v₁ v₂ : Value}
    (h₁ : Done m₁ m₁' g₁ d₁ e₁) (hfit : m₁.Fit) (hp : m₁.Parallel m₂) (hsh : m₁.Shadows m₂)
    (hop : m₁.next.opcode = .binary op) (ha : m₁.next.id? .a = some a)
    (hb : m₁.next.id? .b = some b) (hdst : m₁.next.id? .dst = some dst)
    (hxy : { m₁.observer with pending := none }.readings m₁.store a b = (x, y))
    (hx : x.Of g₁ m₁.store a) (hy : y.Of g₁ m₁.store b)
    (heval₁ : op.eval x.value ((m₁.store.read a).2.shown b) = some v₁)
    (heval₂ : op.eval (m₂.store.shown a) ((m₂.store.read a).2.shown b) = some v₂)
    (hc : (Outcome.ofBinary op x y).IsConstant g₁) : v₂ = v₁ ∨ m₁.Cancels a b dst := by
  have hg := h₁.grows.toExtends
  have hleft : x.constant = true → m₂.store.shown a = x.value := fun h =>
    (hx.shown_of_constant hg hfit hp hsh (by rwa [← hx.constant])).1
  have hright₁ : y.constant = true → (m₁.store.read a).2.shown b = y.value := fun h =>
    hy.shown_read hfit h a
  have hright₂ : y.constant = true → (m₂.store.read a).2.shown b = y.value := fun h =>
    (hy.shown_of_constant hg hfit hp hsh (by rwa [← hy.constant])).2 a
  -- all ways to a constant but the cancelled XOR go through operands that are shown alike
  have hfolds := Outcome.folds op x y
  generalize Outcome.ofBinary op x y = o at hfolds hc
  cases hfolds with
  | folded hl hr hv =>
    rw [hright₁ hr] at heval₁
    rw [hleft hl, hright₂ hr, heval₁] at heval₂
    exact .inl (Option.some.inj heval₂).symm
  | undefined | linkedRight | linkedLeft | linked => exact hc.elim
  | same hu hn =>
    have hx' : x.constant = true := by rw [hx.constant]; exact hc
    exact absurd ⟨hx', by rw [hy.constant, ← hn, ← hx.constant, hx']⟩ hu
  | cancelled hu hn hxor =>
    subst hxor
    have hx' : x.constant = false :=
      Bool.eq_false_iff.2 fun h => hu ⟨h, by rw [hy.constant, ← hn, ← hx.constant, h]⟩
    exact .inr ⟨hop, ha, hb, hdst, by rw [hxy]; exact hx', by rw [hxy]; exact hn⟩
  | neutralLeft _ _ hr =>
    rw [hy.constant] at hr
    exact absurd hc (by rw [Outcome.IsConstant, hr]; exact Bool.false_ne_true)
  | absorbedLeft _ hl _ hab =>
    rw [BinaryOp.eval_absorbing_left hab] at heval₁
    rw [hleft hl, BinaryOp.eval_absorbing_left hab, heval₁] at heval₂
    exact .inl (Option.some.inj heval₂).symm
  | neutralRight _ hl =>
    rw [hx.constant] at hl
    exact absurd hc (by rw [Outcome.IsConstant, hl]; exact Bool.false_ne_true)
  | absorbedRight _ _ hr hab =>
    rw [hright₁ hr, BinaryOp.eval_absorbing_right hab] at heval₁
    rw [hright₂ hr, BinaryOp.eval_absorbing_right hab, heval₁] at heval₂
    exact .inl (Option.some.inj heval₂).symm

/-- Both steps write one operand, or none, and what is constant in the first is written by both,
unless an XOR is cancelled. -/
lemma agree (h₁ : Done m₁ m₁' g₁ d₁ e₁) (h₂ : Done m₂ m₂' g₂ d₂ e₂) (hfit : m₁.Fit)
    (hp : m₁.Parallel m₂) (hsh : m₁.Shadows m₂) (hstr : m₁.next.Straight m₁.store) :
    (∃ target o v₁ v₂, d₁ = .derive target o ∧ e₁ = .write target v₁ ∧ e₂ = .write target v₂ ∧
        target ≠ Store.pc ∧ o ≠ .nothing ∧
        (o.IsConstant g₁ → v₂ = v₁ ∨ ∃ a b, m₁.Cancels a b target)) ∨
      (d₁ = .nothing ∧ (∀ target v, e₁ ≠ .write target v) ∧ ∀ target v, e₂ ≠ .write target v) := by
  have hg := h₁.grows.toExtends
  have hdst : ∀ {dst}, m₁.next.id? .dst = some dst → dst ≠ Store.pc := by
    rintro dst hdst rfl
    exact hstr.pc .dst hdst
  have hsource : ∀ {x : Reading} {a : OperandId}, x.Of g₁ m₁.store a →
      (g₁.node x.node).isConstant = true → m₂.store.shown a = x.value := fun hx hc =>
    (hx.shown_of_constant hg hfit hp hsh hc).1
  have hcell : ∀ v, m₂.store.memoryCell v = m₁.store.memoryCell v := by
    intro v
    simp only [Store.memoryCell, hp.layout]
  have hwrites := h₂.planned.writes
  rw [hp.next] at hwrites
  have hwrite : ∀ {target v}, m₁.next.writes? m₂.store = some (target, v) →
      e₂ = .write target v := fun hw => h₂.planned.write_of (hp.next ▸ hw)
  have hplanned := h₁.planned
  cases hplanned with
  | @binary op a b dst x y v hop ha hb hdst' hxy hx hy heval =>
    obtain ⟨target, v₂, he₂, hw⟩ := hwrites.resolve_right (by simp [hop])
    simp only [Instruction.writes?, hop, ha, hb, hdst', Option.map_eq_some_iff,
      Prod.mk.injEq] at hw
    obtain ⟨w, heval₂, rfl, rfl⟩ := hw
    have ho := ofBinary_ne_nothing (fun hc => hy.shown_read hfit hc a) heval
    refine .inl ⟨dst, _, v, w, rfl, rfl, he₂, hdst hdst', ho, fun hc => ?_⟩
    rcases h₁.agree_binary hfit hp hsh hop ha hb hdst' hxy hx hy heval heval₂ hc with h | h
    · exact .inl h
    · exact .inr ⟨a, b, h⟩
  | @ldm a dst cell x hop ha hdst' hcell' hx =>
    have haddress := (hsh.literal hp hfit (hstr.ldm hop a ha) a).2.2
    have he₂ : e₂ = .write dst (m₂.store.shown cell) := hwrite (by
      simp only [Instruction.writes?, hop, ha, hdst', haddress, hcell, hcell', Except.toOption,
        Option.map_some])
    exact .inl ⟨dst, _, _, _, rfl, rfl, he₂, hdst hdst', by simp,
      fun hc => .inl (hsource hx hc)⟩
  | @stm a dst planned cell x hop ha hdst' hplanned hcell' hx =>
    obtain ⟨haddress₁, haddress₂, -⟩ := hsh.literal hp hfit (hstr.stm hop dst hdst') a
    rw [haddress₁, hplanned] at hcell'
    cases hcell'
    have he₂ : e₂ = .write planned (m₂.store.shown a) := hwrite (by
      simp only [Instruction.writes?, hop, ha, hdst', haddress₂, hcell, hplanned,
        Except.toOption, Option.map_some])
    exact .inl ⟨planned, _, _, _, rfl, rfl, he₂, (hfit.laid.kind_memoryCell hplanned).1.1, by simp,
      fun hc => .inl (hsource hx hc)⟩
  | @stmAstray a dst cell f hop ha hdst' hplanned hcell' =>
    rw [(hsh.literal hp hfit (hstr.stm hop dst hdst') a).1, hplanned] at hcell'
    cases hcell'
  | @str a dst x hop ha hdst' hx =>
    have he₂ : e₂ = .write dst (m₂.store.shown a) :=
      hwrite (by simp only [Instruction.writes?, hop, ha, hdst'])
    exact .inl ⟨dst, _, _, _, rfl, rfl, he₂, hdst hdst', by simp,
      fun hc => .inl (hsource hx hc)⟩
  | @bisz a dst x hop ha hdst' hx =>
    have he₂ : e₂ = .write dst (Value.ofBool (m₂.store.shown a = 0)) :=
      hwrite (by simp only [Instruction.writes?, hop, ha, hdst'])
    refine .inl ⟨dst, _, _, _, rfl, rfl, he₂, hdst hdst', ofTest_ne_nothing, fun hc => .inl ?_⟩
    cases hx' : x.constant with
    | true => rw [hsource hx (by rwa [← hx.constant])]
    | false =>
      rw [Outcome.ofTest, hx'] at hc
      exact hc.elim
  | @undef dst hop hdst' =>
    have he₂ : e₂ = .write dst 0 := hwrite (by simp only [Instruction.writes?, hop, hdst'])
    exact .inl ⟨dst, _, _, _, rfl, rfl, he₂, hdst hdst', by simp, fun hc => hc.elim⟩
  | branch hop | known hop => exact absurd hop hstr.jcc
  | nop hop | unkn hop =>
    rcases hwrites with ⟨target, v₂, -, hw⟩ | ⟨hidle, -⟩
    · simp [Instruction.writes?, hop] at hw
    · exact .inr ⟨rfl, by simp, hidle⟩

lemma known_other (h : Done m m' g d e) (hfit : m.Fit) (hpc : id ≠ Store.pc)
    (hin : ¬ m.store.IsInput id) (he : ∀ v, e ≠ .write id v) (hd : d.target? ≠ some id) :
    m'.Known id ↔ m.Known id := by
  have hsame := h.other hpc hin he hd
  cases hn : (m.store.operand id).node with
  | none => rw [Machine.known_of_unbound hn, Machine.known_of_unbound (hsame ▸ hn), hsame]
  | some n =>
    rw [Machine.known_of_node hn, Machine.known_of_node (hsame ▸ hn),
      h.node_eq (hfit.fits.bound hn)]

lemma known_target {o : Outcome} (h : Done m m' g (.derive id o) e) (hst : m.store.IsStorage id)
    (ho : o ≠ .nothing) (hk : m'.Known id) : o.IsConstant g := by
  cases o with
  | source r =>
    obtain ⟨hg, hnode⟩ := h.node_source hst
    rwa [Machine.known_of_node hnode, hg] at hk
  | constant v => trivial
  | derived op rs =>
    obtain ⟨context, hg, hnode⟩ := h.node_derived hst
    rw [Machine.known_of_node hnode, hg, Graph.node_derive_not_constant] at hk
    cases hk
  | nothing => exact absurd rfl ho

/-- What is known after the first step is the same after the second, unless an XOR is cancelled
that comes out differently. -/
lemma shadows (h₁ : Done m₁ m₁' g₁ d₁ e₁) (h₂ : Done m₂ m₂' g₂ d₂ e₂) (hfit : m₁.Fit)
    (hp : m₁.Parallel m₂) (hp' : m₁'.Parallel m₂') (hsh : m₁.Shadows m₂)
    (hstr : m₁.next.Straight m₁.store)
    (hxor : ∀ a b dst, m₁.Cancels a b dst → m₁.store.IsStorage dst →
      (m₂'.store.operand dst).value = (m₁'.store.operand dst).value) : m₁'.Shadows m₂' := by
  intro id hk
  by_cases hpc : id = Store.pc
  · rw [hpc]
    exact hp'.pc
  have hin : ¬ m₁.store.IsInput id := by
    rw [Store.IsInput, ← h₁.kind]
    exact hk.not_input ((Tracked.done h₁).fit hfit)
  have hin₂ : ¬ m₂.store.IsInput id := by rwa [Store.IsInput, hp.kind]
  -- an operand that neither step touches
  have hother : (∀ v, e₁ ≠ .write id v) → d₁.target? ≠ some id → (∀ v, e₂ ≠ .write id v) →
      (m₂'.store.operand id).value = (m₁'.store.operand id).value := by
    intro he₁ hd₁ he₂
    rw [h₁.value_other hpc hin he₁, h₂.value_other hpc hin₂ he₂]
    exact hsh id ((h₁.known_other hfit hpc hin he₁ hd₁).1 hk)
  rcases h₁.agree h₂ hfit hp hsh hstr with
    ⟨target, o, v₁, v₂, rfl, rfl, rfl, htarget, ho, hagree⟩ | ⟨rfl, he₁, he₂⟩
  · by_cases hid : target = id
    · subst hid
      rcases Nat.lt_or_ge target m₁.store.operands.size with hlt | hge
      · have hout : ¬ m₁.store.IsOutput target := by
          intro hout
          obtain ⟨n, hn, hc⟩ := h₁.node_output ho hlt hout
          rw [Machine.known_of_node hn, hc] at hk
          cases hk
        have hst := Store.isStorage_of_writable hpc hlt
          (h₁.target_writable hfit.laid rfl) hout
        have hlt₂ := hp.size ▸ hlt
        rcases hagree (h₁.known_target hst ho hk) with hv | ⟨a, b, hc⟩
        · rw [h₁.value_target hpc hlt, h₂.value_target hpc hlt₂, hv]
        · exact hxor a b target hc hst
      · rw [← h₁.size] at hge
        rw [Store.operand_of_size_le hge, Store.operand_of_size_le (hp'.size ▸ hge)]
    · refine hother (fun v hv => ?_) (fun ht => hid (Option.some.inj ht)) fun v hv => ?_
      · cases hv
        exact hid rfl
      · cases hv
        exact hid rfl
  · exact hother (he₁ id) nofun (he₂ id)

lemma cancelled {a b dst : OperandId} (h : Done m m' g d e) (hc : m.Cancels a b dst)
    (hst : m.store.IsStorage dst) : ∃ n, (m'.store.operand dst).node = some n ∧
      (m'.observer.graph.node n).isConstant = true := by
  have hop := hc.opcode
  have hplanned := h.planned
  cases hplanned with
  | @binary op a' b' dst' x y v hop' ha' hb' hdst' hxy =>
    obtain ⟨rfl, rfl, rfl, rfl, hunknown, hnode⟩ := hc.eq_of_binary hop' ha' hb' hdst' hxy
    have ho : Outcome.ofBinary .xor x y = .constant 0 := by
      simp [Outcome.ofBinary, hunknown, hnode]
    rw [ho] at h
    obtain ⟨hg, hbound⟩ := h.node_constant hst
    exact ⟨_, hbound, by rw [hg]; exact (g.node_constant 0).1⟩
  | ldm hop' | stm hop' | stmAstray hop' | str hop' | bisz hop' | undef hop' | branch hop'
    | known hop' | nop hop' | unkn hop' => rw [hop] at hop'; cases hop'

end Done

/-! ### Runs -/

namespace Machine

/-- The registers other than the program counter and the memory cells that are bound to constants in
the first machine have the same values in the second. -/
def ConstantsAgree (m₁ m₂ : Machine Tracker) : Prop :=
  ∀ id n, m₁.store.IsStorage id → (m₁.store.operand id).node = some n →
    (m₁.observer.graph.node n).isConstant = true →
    (m₂.store.operand id).value = (m₁.store.operand id).value

lemma Shadows.constantsAgree (h : m₁.Shadows m₂) : m₁.ConstantsAgree m₂ :=
  fun id _ _ hn hc => h id ((known_of_node hn).2 hc)

/-- **Constants and inputs**: when one straight-line program with literal addresses runs to its halt
on two sets of queues, both runs take the same steps. What is bound to a constant in the first run
has the same value in the second, at every point of the runs, exactly if every XOR that is cancelled
in the first run leaves its destination with the same value in both. -/
theorem constants_agree_iff {s : Store} {values₁ values₂ : List (List Value)} {program : String}
    {fuel₁ fuel₂ n₁ n₂ : Nat} (hl : s.Laid) (hu : s.Unbound)
    (h₁ : loadText { store := { s with source := .queues values₁ }, observer := {} } program =
      (.ok (), m₁))
    (h₂ : loadText { store := { s with source := .queues values₂ }, observer := {} } program =
      (.ok (), m₂))
    (hstr : ∀ i ∈ m₁.program, i.Straight m₁.store)
    (hr₁ : m₁.run fuel₁ = (some (.ok n₁), m₁')) (hr₂ : m₂.run fuel₂ = (some (.ok n₂), m₂')) :
    ∃ k, m₁' = m₁.after k ∧ m₂' = m₂.after k ∧
      ((∀ j ≤ k, (m₁.after j).ConstantsAgree (m₂.after j)) ↔
        ∀ j < k, ∀ a b dst, (m₁.after j).Cancels a b dst → (m₁.after j).store.IsStorage dst →
          ((m₂.after (j + 1)).store.operand dst).value =
            ((m₁.after (j + 1)).store.operand dst).value) := by
  have hfit₁ : m₁.Fit := (fit_of_loadText (s := { s with source := .queues values₁ })
    (Source.queues_truthful values₁) (hl.congr rfl rfl fun _ => rfl) hu h₁).1
  have hfit₂ : m₂.Fit := (fit_of_loadText (s := { s with source := .queues values₂ })
    (Source.queues_truthful values₂) (hl.congr rfl rfl fun _ => rfl) hu h₂).1
  obtain ⟨hp, hoperand⟩ := parallel_of_loadText h₁ h₂
  have hnext : ∀ n, (m₁.after n).next.Straight (m₁.after n).store := fun n =>
    (hfit₁.next_of_all hstr (Instruction.straight_unknown _) n).congr (hfit₁.constant n).2.2.2.2
  obtain ⟨k, rfl, hhalt₁⟩ := haltsAfter_of_run hr₁
  obtain ⟨k', rfl, hhalt₂⟩ := haltsAfter_of_run hr₂
  obtain rfl := hp.halts hfit₁ hfit₂ hnext hhalt₁ hhalt₂
  have hpar : ∀ {j}, j ≤ k + 1 → (m₁.after j).Parallel (m₂.after j) := fun hj =>
    hp.after hfit₁ hfit₂ hnext hhalt₁ hhalt₂ hj hj
  have hdone : ∀ {m : Machine Tracker}, m.Fit → m.HaltsAfter k → ∀ {j}, j ≤ k →
      ∃ g d e, Done (m.after j) (m.after (j + 1)) g d e := by
    intro m hfit hhalt j hj
    have ht := (hfit.after j).tracked
    rw [hhalt.running hj] at ht
    obtain ⟨g, d, e, h, -⟩ := ht.done_of_ok
    exact ⟨g, d, e, h⟩
  refine ⟨k + 1, rfl, rfl, fun hagree j hj a b dst hc hst => ?_, fun hxor => ?_⟩
  · -- where an XOR is cancelled, its destination is bound to a constant
    obtain ⟨g, d, e, h⟩ := hdone hfit₁ hhalt₁ (Nat.le_of_lt_succ hj)
    obtain ⟨n, hn, hconst⟩ := h.cancelled hc hst
    exact hagree (j + 1) hj dst n (h.isStorage.2 hst) hn hconst
  · -- otherwise what is known stays alike from step to step
    have hshadows : ∀ j ≤ k + 1, (m₁.after j).Shadows (m₂.after j) := by
      intro j hj
      induction j with
      | zero =>
        intro id _
        rw [after, after, hoperand]
      | succ j ih =>
        obtain ⟨g₁, d₁, e₁, hd₁⟩ := hdone hfit₁ hhalt₁ (Nat.le_of_succ_le_succ hj)
        obtain ⟨g₂, d₂, e₂, hd₂⟩ := hdone hfit₂ hhalt₂ (Nat.le_of_succ_le_succ hj)
        exact hd₁.shadows hd₂ (hfit₁.after j) (hpar (Nat.le_of_succ_le hj)) (hpar hj)
          (ih (Nat.le_of_succ_le hj)) (hnext j) fun a b dst hc hst => hxor j hj a b dst hc hst
    exact fun j hj => (hshadows j hj).constantsAgree

/-- A value that is stored, masked with the constant 0 and loaded again, for two inputs. -/
theorem constants_agree_iff_mask :
    let s : Store :=
      { layout := { registers := ["A", "B"], memorySize := 1, inputs := 1 }
        operands := #[{ kind := .register pcName }, { kind := .register "A" },
          { kind := .register "B" }, { kind := .memory 0 }, { kind := .input 0 }]
        source := .queues [] }
    let program := "STR IN0, , A\nSTM A, , %0\nAND A, %0, B\nLDM %0, , A"
    let m₁ := (loadText
      { store := { s with source := .queues [[5]] }, observer := ({} : Tracker) } program).2
    let m₂ := (loadText
      { store := { s with source := .queues [[7]] }, observer := ({} : Tracker) } program).2
    (s.Laid ∧ s.Unbound ∧
        loadText { store := { s with source := .queues [[5]] }, observer := {} } program =
          (.ok (), m₁) ∧
        loadText { store := { s with source := .queues [[7]] }, observer := {} } program =
          (.ok (), m₂) ∧
        (∀ i ∈ m₁.program, i.Straight m₁.store) ∧ m₁.run 9 = (some (.ok 5), (m₁.run 9).2) ∧
        m₂.run 9 = (some (.ok 5), (m₂.run 9).2)) ∧
      ∃ k, (m₁.run 9).2 = m₁.after k ∧ (m₂.run 9).2 = m₂.after k ∧
        ((∀ j ≤ k, (m₁.after j).ConstantsAgree (m₂.after j)) ↔
          ∀ j < k, ∀ a b dst, (m₁.after j).Cancels a b dst → (m₁.after j).store.IsStorage dst →
            ((m₂.after (j + 1)).store.operand dst).value =
              ((m₁.after (j + 1)).store.operand dst).value) := by
  intro s program m₁ m₂
  have hbuild : Config.build
      { registers := ["A", "B"], memorySize := 1, inputs := 1, source := .queues [] } = .ok s := rfl
  obtain ⟨hl, hu⟩ := Config.laid_of_build hbuild
  have h₁ : loadText { store := { s with source := .queues [[5]] }, observer := {} } program =
      (.ok (), m₁) := Prod.ext (by decide +kernel) rfl
  have h₂ : loadText { store := { s with source := .queues [[7]] }, observer := {} } program =
      (.ok (), m₂) := Prod.ext (by decide +kernel) rfl
  have hstr : ∀ i ∈ m₁.program, i.Straight m₁.store := by decide +kernel
  have hfst₁ : (m₁.run 9).1 = some (.ok 5) := by decide +kernel
  have hfst₂ : (m₂.run 9).1 = some (.ok 5) := by decide +kernel
  have hr₁ : m₁.run 9 = (some (.ok 5), (m₁.run 9).2) := by rw [← hfst₁]
  have hr₂ : m₂.run 9 = (some (.ok 5), (m₂.run 9).2) := by rw [← hfst₂]
  exact ⟨⟨hl, hu, h₁, h₂, hstr, hr₁, hr₂⟩, constants_agree_iff hl hu h₁ h₂ hstr hr₁ hr₂⟩

/-- Constants may depend on inputs: the XOR of two readings is cancelled because 5 is read twice,
but for 5 and 6 it is 3. -/
theorem constants_may_differ :
    ¬ ∀ (c : Config) (s : Store) (values₁ values₂ : List (List Value)) (program : String)
      (m₁ m₂ m₁' m₂' : Machine Tracker) (fuel₁ fuel₂ n₁ n₂ : Nat), c.build = .ok s →
      loadText { store := { s with source := .queues values₁ }, observer := {} } program =
        (.ok (), m₁) →
      loadText { store := { s with source := .queues values₂ }, observer := {} } program =
        (.ok (), m₂) →
      (∀ i ∈ m₁.program, i.Straight m₁.store) → m₁.run fuel₁ = (some (.ok n₁), m₁') →
      m₂.run fuel₂ = (some (.ok n₂), m₂') → m₁'.ConstantsAgree m₂' := by
  intro hall
  have hagree := hall { registers := ["A", "B"], inputs := 1, source := .queues [] } _ [[5, 5]]
    [[5, 6]] "STR IN0, , A\nXOR A, IN0, B" _ _ _ _ 9 9 3 3 rfl (Prod.ext (by decide +kernel) rfl)
    (Prod.ext (by decide +kernel) rfl) (by decide +kernel) (Prod.ext (by decide +kernel) rfl)
    (Prod.ext (by decide +kernel) rfl) 2 1 (by decide +kernel) (by decide +kernel)
    (by decide +kernel)
  revert hagree
  decide +kernel

end Machine

end Lineage
