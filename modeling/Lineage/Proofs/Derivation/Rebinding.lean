import Lineage.Proofs.Derivation.Constancy
import Lineage.Proofs.Derivation.Ranging

/-!
Which binding a step changes.

A step gives a node to the operand that it writes, or to the program counter where it jumps on what
is no constant, and every other operand keeps the node that it has. A copy hands on the node of its
source. So what is stored in a cell and loaded from it again is bound to one node all the way.
-/

namespace Lineage

variable {m : Machine Tracker} {g g' : Graph} {s s' : Store} {d : Decision} {i : Instruction}
  {id target source : OperandId} {running : Bool}

/-- An instruction that does not store what it takes from one input channel where another one
says. -/
def Instruction.Aimed (i : Instruction) (s : Store) : Prop :=
  i.opcode = .stm → ∀ a ∈ i.id? .a, ∀ dst ∈ i.id? .dst, s.IsInput a → ¬ s.IsInput dst

instance (i : Instruction) (s : Store) : Decidable (i.Aimed s) :=
  inferInstanceAs (Decidable (_ → _))

lemma Instruction.aimed_unknown (s : Store) : unknown.Aimed s := nofun

lemma Instruction.Aimed.sameFrame {t : Store} (h : i.Aimed s) (hf : s.SameFrame t) : i.Aimed t := by
  intro hop a ha dst hdst
  rw [hf.isInput, hf.isInput]
  exact h hop a ha dst hdst

namespace Machine

/-- The operand that the next step gives a node to if it succeeds: the one that it writes, which for
`STM` is the cell at the address read, and for `JCC` the program counter unless the condition is
found to be a constant. -/
def rebinds? (m : Machine Tracker) : Option OperandId :=
  match m.next.opcode, m.next.id? .a, m.next.id? .dst with
  | .binary _, _, dst | .ldm, _, dst | .str, _, dst | .bisz, _, dst | .undef, _, dst => dst
  | .stm, some a, some dst => (m.store.memoryCell ((m.told.2.read a).2.read dst).1).toOption
  | .jcc, some a, _ => if (m.found a).constant then none else some Store.pc
  | _, _, _ => none

/-- The operand whose value the next step hands on as it is: for `LDM` the cell at the address
read. -/
def copied? (m : Machine Tracker) : Option OperandId :=
  match m.next.opcode, m.next.id? .a with
  | .str, a | .stm, a => a
  | .ldm, some a => (m.store.memoryCell (m.told.2.read a).1).toOption
  | _, _ => none

lemma rebinds_stm (hop : m.next.opcode = .stm) (h : m.rebinds? = some target) :
    ∃ address, m.store.memoryCell address = .ok target := by
  rw [rebinds?, hop] at h
  cases ha : m.next.id? .a with
  | none => simp only [ha, reduceCtorEq] at h
  | some a =>
    cases hdst : m.next.id? .dst with
    | none => simp only [ha, hdst, reduceCtorEq] at h
    | some dst =>
      simp only [ha, hdst] at h
      cases hcell : m.store.memoryCell ((m.told.2.read a).2.read dst).1 with
      | error e => simp only [hcell, Except.toOption, reduceCtorEq] at h
      | ok cell =>
        simp only [hcell, Except.toOption, Option.some.injEq] at h
        exact ⟨_, hcell.trans (by rw [h])⟩

lemma found_of_bound {n : NodeId} (h : (m.store.operand id).node = some n) :
    (m.found id).node = n := by
  rw [found, Tracker.read_eq, Tracker.resolve, h]

namespace Fit

lemma told_read (h : m.Fit) (a : OperandId) : (m.told.2.read a).1 = m.store.shown a := by
  rw [told_eq, (m.planned_looked.store.read h.truthful a).1, Store.read_value h.truthful]

lemma told_read_second (h : m.Fit) (a b : OperandId) :
    ((m.told.2.read a).2.read b).1 = (m.store.read a).2.shown b := by
  have hs : (m.store.read a).2.source.Truthful := by
    rw [(m.store.read_steady a).source]
    exact h.truthful
  have hp := (m.planned_looked.store.read h.truthful a).2
  rw [told_eq, (hp.read hs b).1, Store.read_value hs]

lemma told_memoryCell (m : Machine Tracker) (v : Value) :
    m.told.2.memoryCell v = m.store.memoryCell v := m.planned_looked.store.steady.memoryCell v

/-- Looking for a cell changes nothing about what is found. -/
lemma read_cellAt (h : m.Fit) (j id : OperandId) :
    (Tracker.read id (Tracker.cellAt j ({ m.observer with pending := none }, m.store)).2).1 =
      m.found id := by
  have hp := m.store.peek_peeked j
  have hq : (Tracker.cellAt j ({ m.observer with pending := none }, m.store)).2 =
      ({ m.observer with pending := none }, (m.store.peek j).2) := rfl
  rw [hq, found, Tracker.read_eq, Tracker.read_eq]
  simp only [hp.operand, hp.shown h.truthful]

/-! ### Decisions -/

/-- What a copy decides on is the node of its source. -/
lemma decision_of_copied (h : m.Fit) (ha : m.next.Aimed m.store) {e : Effect} {u : Store}
    (hreads : m.next.Reads m.told.2 e u) (hc : m.copied? = some source) :
    ∃ target, m.rebinds? = some target ∧
      m.decision = .derive target (.source (m.found source)) := by
  cases hreads with
  | @ldm a dst cell hop ha' hdst hcell =>
    have hfound : m.copied? = some cell := by
      simp only [copied?, hop, ha', ← told_memoryCell, hcell, Except.toOption]
    rw [hfound] at hc
    cases hc
    rw [told_memoryCell, h.told_read] at hcell
    refine ⟨dst, by simp only [rebinds?, hop, ha', hdst], ?_⟩
    rw [decision, planned, Tracker.plan_ldm hop ha' hdst, Tracker.cellAt_eq, hcell]
    simp only [Except.toOption, h.read_cellAt]
  | @stm a dst cell hop ha' hdst hcell =>
    have hfound : m.copied? = some a := by simp only [copied?, hop, ha']
    rw [hfound] at hc
    cases hc
    refine ⟨cell, by simp only [rebinds?, hop, ha', hdst, ← told_memoryCell, hcell,
      Except.toOption], ?_⟩
    -- the address is read behind the value, but not from its channel
    rw [told_memoryCell, h.told_read_second,
      Store.shown_read_of_one (ha hop source ha' dst hdst)] at hcell
    rw [decision, planned, Tracker.plan_stm hop ha' hdst, Tracker.cellAt_eq, hcell]
    simp only [Except.toOption, h.read_cellAt]
  | @str a dst hop ha' hdst =>
    have hfound : m.copied? = some a := by simp only [copied?, hop, ha']
    rw [hfound] at hc
    cases hc
    refine ⟨dst, by simp only [rebinds?, hop, ha', hdst], ?_⟩
    rw [decision, planned, Tracker.plan_str hop ha' hdst]
    rfl
  | binary hop | bisz hop | pass hop | jump hop | undef hop | nop hop | unkn hop =>
    simp only [copied?, hop, reduceCtorEq] at hc

/-- A step that succeeds has decided on the operand that it is said to give a node to. -/
lemma target_eq (h : m.Fit) (hd : m.Decoded) (ha : m.next.Aimed m.store) {e : Effect} {u : Store}
    (hreads : m.next.Reads m.told.2 e u) :
    m.decision.target? = m.rebinds? ∧ ∀ target, m.decision ≠ .derive target .nothing := by
  -- a copy is known already
  have hcopy : ∀ source, m.copied? = some source →
      m.decision.target? = m.rebinds? ∧ ∀ target, m.decision ≠ .derive target .nothing := by
    intro source hc
    obtain ⟨target, ht, hdec⟩ := h.decision_of_copied ha hreads hc
    rw [hdec, ht]
    exact ⟨rfl, fun _ heq => by cases heq⟩
  have hjcc : ∀ {a}, m.next.opcode = .jcc → m.next.id? .a = some a →
      m.decision.target? = m.rebinds? ∧ ∀ target, m.decision ≠ .derive target .nothing := by
    intro a hop ha'
    obtain ⟨dst, hdst⟩ := hd.next.exists_id .dst (by rw [hop]; rfl)
    have hdec := Tracker.plan_jcc hop ha' hdst ({ m.observer with pending := none }, m.store)
    have hfound : (Tracker.read a ({ m.observer with pending := none }, m.store)).1 = m.found a :=
      rfl
    rw [hfound] at hdec
    rw [decision, planned, hdec]
    simp only [rebinds?, hop, ha']
    cases (m.found a).constant <;> exact ⟨rfl, fun _ heq => by cases heq⟩
  cases hreads with
  | @ldm a dst cell hop ha' _ hcell =>
    rw [told_memoryCell] at hcell
    exact hcopy cell (by simp only [copied?, hop, ha', hcell, Except.toOption])
  | @stm a dst cell hop ha' => exact hcopy a (by simp only [copied?, hop, ha'])
  | @str a dst hop ha' => exact hcopy a (by simp only [copied?, hop, ha'])
  | @binary op a b dst v hop ha' hb hdst heval =>
    have hdec := Tracker.plan_binary hop ha' hb hdst
      ({ m.observer with pending := none }, m.store)
    have hy := Tracker.read_of_looked (t := { m.observer with pending := none }) h.truthful
      h.fits.bound (Tracker.looks_read a ({ m.observer with pending := none }, m.store)) b
    rw [h.told_read, h.told_read_second] at heval
    replace heval : op.eval (m.found a).value ((m.store.read a).2.shown b) = some v := heval
    rw [decision, planned, hdec]
    refine ⟨by simp only [rebinds?, hop, hdst]; rfl, fun target heq => ?_⟩
    refine ofBinary_ne_nothing (fun hc => hy.shown_read h hc a) heval ?_
    injection heq
  | @bisz a dst hop ha' hdst =>
    rw [decision, planned, Tracker.plan_bisz hop ha' hdst]
    refine ⟨by simp only [rebinds?, hop, hdst]; rfl, fun target heq => ?_⟩
    refine ofTest_ne_nothing (x := m.found a) ?_
    injection heq
  | pass hop ha' | jump hop ha' => exact hjcc hop ha'
  | undef hop hdst =>
    rw [decision, planned, Tracker.plan_undef hop hdst]
    exact ⟨by simp only [rebinds?, hop, hdst]; rfl, fun _ heq => by cases heq⟩
  | nop hop =>
    rw [decision, planned, Tracker.plan_idle (.inl hop)]
    exact ⟨by simp only [rebinds?, hop]; rfl, fun _ heq => by cases heq⟩
  | unkn hop =>
    rw [decision, planned, Tracker.plan_idle (.inr hop)]
    exact ⟨by simp only [rebinds?, hop]; rfl, fun _ heq => by cases heq⟩

end Fit

end Machine

/-! ### Steps -/

lemma Records.bound (h : Records d g s g' s') (ht : d.target? = some target)
    (hd : d ≠ .derive target .nothing) (hlt : target < s.operands.size) :
    ∃ n, (s'.operand target).node = some n := by
  cases h with
  | nothing => cases ht
  | void =>
    cases ht
    exact absurd rfl hd
  | source | constant | derived | copy | copyConstant | branch =>
    cases ht
    exact ⟨_, s.node_bind_self _ hlt⟩

namespace Machine

/-- What a step that succeeds does to the bindings. -/
structure Rebinds (m : Machine Tracker) : Prop where
  /-- What is written is what is given a node. -/
  written : ∃ e u, m.next.Reads m.told.2 e u ∧ (m.next.opcode ≠ .jcc →
    ∀ target, m.rebinds? = some target ↔ ∃ v, e = .write target v)
  /-- A binding for it has been queued before, and no other one. -/
  queued : m.told.1.pending.map Pending.target = m.rebinds?
  bound : ∀ id, m.rebinds? = some id → ∃ n, (m.step.2.store.operand id).node = some n
  kept : ∀ id, m.rebinds? ≠ some id →
    (m.step.2.store.operand id).node = (m.store.operand id).node
  copied : ∀ source target, m.copied? = some source → m.rebinds? = some target →
    ¬ m.store.IsOutput target →
    (m.step.2.store.operand target).node = some (m.found source).node

namespace Fit

lemma rebinds_iff_write {e : Effect} {u : Store} (hreads : m.next.Reads m.told.2 e u)
    (hjcc : m.next.opcode ≠ .jcc) (target : OperandId) :
    m.rebinds? = some target ↔ ∃ v, e = .write target v := by
  cases hreads with
  | binary hop ha _ hdst | ldm hop ha hdst | str hop ha hdst | bisz hop ha hdst =>
    simp [rebinds?, hop, hdst]
  | stm hop ha hdst hcell =>
    simp [rebinds?, hop, ha, hdst, ← told_memoryCell, hcell, Except.toOption]
  | undef hop hdst => simp [rebinds?, hop, hdst]
  | pass hop | jump hop => exact absurd hop hjcc
  | nop hop | unkn hop => simp [rebinds?, hop]

lemma rebinds (h : m.Fit) (hd : m.Decoded) (ha : m.next.Aimed m.store)
    (hok : m.step.1 = .ok running) : m.Rebinds := by
  obtain ⟨e, u, v, flow, hreads, hperf, hstep⟩ := done_of_ok hok
  have hdone := done_of_reads h.truthful h.laid h.fits.bound hreads hperf
  rw [← hstep] at hdone
  obtain ⟨htarget, hvoid⟩ := h.target_eq hd ha hreads
  obtain ⟨u', v', hs, hf, hr⟩ := hdone.effect
  have hsize : v'.operands.size = m.store.operands.size := hf.size.trans hs.size
  have hmarks : m.decision.marks = [] → m.decision.target? = none := by
    intro hnil
    cases hdec : m.decision with
    | nothing => rfl
    | derive target o =>
      rw [hdec] at hnil hvoid
      cases o with
      | nothing => exact absurd rfl (hvoid target)
      | source | constant | derived => cases hnil
    | branch =>
      rw [hdec] at hnil
      cases hnil
  have hlt : ∀ {id}, m.rebinds? = some id → id < m.store.operands.size := by
    intro id hid
    have hne : m.decision.marks ≠ [] := fun hnil => by
      rw [← htarget, hmarks hnil] at hid
      cases hid
    obtain ⟨x, -, hx, hmem⟩ := Tracker.pending_adopt m.planned.2.1 m.planned.2.2 hne
    rw [htarget, hid] at hx
    cases hx
    exact hd.next.reaches_lt h.laid ((Tracker.plans_plan _ _).reaches hmem)
  refine ⟨⟨e, u, hreads, rebinds_iff_write hreads⟩, ?_, fun id hid => ?_,
    fun id hid => ?_, fun source target hsource hrebinds hout => ?_⟩
  · by_cases hnil : m.decision.marks = []
    · rw [← htarget, hmarks hnil, told_eq, adopted, Tracker.adopt_of_marks _ _ hnil,
        m.planned_looked.tracker]
      rfl
    · obtain ⟨x, hx, hxt, -⟩ := Tracker.pending_adopt m.planned.2.1 m.planned.2.2 hnil
      rw [← htarget, hxt, told_eq, adopted, hx]
      rfl
  · exact hr.bound (htarget.trans hid) (hvoid id) (hsize ▸ hlt hid)
  · rw [hr.other (by rwa [htarget]), h.node_eq hs hf]
  · obtain ⟨target', ht', hdec⟩ := h.decision_of_copied ha hreads hsource
    rw [hrebinds] at ht'
    cases ht'
    rw [hdec] at hr
    refine (hr.node_source (hsize ▸ hlt hrebinds) ?_).2
    rwa [Store.IsOutput, hf.kind, hs.kind]

lemma node_of_error (h : m.Fit) {f : Fault} (herr : m.step.1 = .error f) (id : OperandId) :
    (m.step.2.store.operand id).node = (m.store.operand id).node := by
  have hcourse := m.step_course
  rw [herr] at hcourse
  generalize m.step.2 = m' at hcourse ⊢
  cases hcourse with
  | fault hst =>
    exact h.node_steady (m.planned_looked.store.steady.trans hst) id

end Fit

/-! ### Runs -/

/-- The step after `n` others succeeds. -/
def Succeeds (m : Machine Tracker) (n : Nat) : Prop := ∃ running, (m.after n).step.1 = .ok running

/-- A node stays where it is bound as long as no step gives that operand another one. -/
lemma Fit.node_kept (h : m.Fit) (hsteps : ∀ j, m.Succeeds j → (m.after j).Rebinds) {n k : Nat}
    (hnk : n ≤ k) (hidle : ∀ j, n ≤ j → j < k → m.Succeeds j → (m.after j).rebinds? ≠ some id) :
    ((m.after k).store.operand id).node = ((m.after n).store.operand id).node := by
  induction hnk with
  | refl => rfl
  | @step k hnk ih =>
    rw [← ih fun j hj hjk => hidle j hj (by omega)]
    cases hr : (m.after k).step.1 with
    | error f => exact (h.after k).node_of_error hr id
    | ok running =>
      have hk : m.Succeeds k := ⟨running, hr⟩
      exact (hsteps k hk).kept id (hidle k hnk (by omega) hk)

/-- What `STM` has copied into a cell and `LDM` copies out of it later is bound to one node, if no
step between them has given the cell another one. -/
lemma Fit.node_carried (h : m.Fit) (hsteps : ∀ j, m.Succeeds j → (m.after j).Rebinds) {n k : Nat}
    {cell : OperandId} (hnk : n < k) (hstore : m.Succeeds n) (hload : m.Succeeds k)
    (hstm : (m.after n).next.opcode = .stm) (hsource : (m.after n).copied? = some source)
    (hcell : (m.after n).rebinds? = some cell)
    (hidle : ∀ j, n < j → j < k → m.Succeeds j → (m.after j).rebinds? ≠ some cell)
    (hldm : (m.after k).copied? = some cell) (hdst : (m.after k).rebinds? = some target)
    (hout : ¬ (m.after k).store.IsOutput target) :
    ((m.after (k + 1)).store.operand target).node = some ((m.after n).found source).node := by
  have hmem : ¬ (m.after n).store.IsOutput cell := by
    obtain ⟨address, hid⟩ := rebinds_stm hstm hcell
    exact ((h.after n).laid.kind_memoryCell hid).1.not_output
  have hstored :
      ((m.after (n + 1)).store.operand cell).node = some ((m.after n).found source).node :=
    (hsteps n hstore).copied source cell hsource hcell hmem
  have hkept :
      ((m.after k).store.operand cell).node = ((m.after (n + 1)).store.operand cell).node :=
    h.node_kept hsteps hnk fun j hj => hidle j (by omega)
  rw [← found_of_bound (hkept.trans hstored)]
  exact (hsteps k hload).copied cell target hldm hdst hout

/-- **The binding changed is that of the operand written**: deciding changes no operand, a step that
succeeds gives a node to what it writes or to the program counter of a jump and to nothing else, a
copy hands on the node of its source, and so what `STM` puts into a cell has its node when `LDM`
gets it out again. -/
theorem bindings_follow_writes {program : String} (hs : s.source.Truthful) (hl : s.Laid)
    (hu : s.Unbound) (hload : loadText { store := s, observer := {} } program = (.ok (), m))
    (ha : ∀ i ∈ m.program, i.Aimed m.store) :
    (∀ n, (∀ id, (m.after n).told.2.operand id = (m.after n).store.operand id) ∧
      (∀ id, (m.after n).store.IsInput id → ((m.after n).store.operand id).node = none) ∧
      (∀ f, (m.after n).step.1 = .error f → ∀ id,
        ((m.after n).step.2.store.operand id).node = ((m.after n).store.operand id).node) ∧
      (m.Succeeds n → (m.after n).Rebinds)) ∧
    ∀ n k source cell target, n < k →
      m.Succeeds n → (m.after n).next.opcode = .stm →
      (m.after n).copied? = some source → (m.after n).rebinds? = some cell →
      (∀ j, n < j → j < k → m.Succeeds j → (m.after j).rebinds? ≠ some cell) →
      m.Succeeds k → (m.after k).next.opcode = .ldm →
      (m.after k).copied? = some cell → (m.after k).rebinds? = some target →
      ¬ (m.after k).store.IsOutput target →
      ((m.after (k + 1)).store.operand target).node = some ((m.after n).found source).node := by
  have hfit : m.Fit := (fit_of_loadText hs hl hu hload).1
  have hplaced : m.Placed := placed_of_loadText hl hload
  have haimed : ∀ n, (m.after n).next.Aimed (m.after n).store := fun n =>
    (hfit.next_of_all ha (Instruction.aimed_unknown _) n).sameFrame (sameFrame_after m n)
  have hsteps : ∀ n, m.Succeeds n → (m.after n).Rebinds := fun n ⟨_, hok⟩ =>
    (hfit.after n).rebinds (hplaced.after n).toDecoded (haimed n) hok
  refine ⟨fun n => ⟨(m.after n).planned_looked.store.operand, fun id ⟨c, hc⟩ => ?_,
    fun f herr => (hfit.after n).node_of_error herr, hsteps n⟩, ?_⟩
  · exact (hfit.after n).fits.unbound (by rw [Operand.isWritable, hc])
  · intro n k source cell target hnk hstore hstm hsource hcell hidle hload' _ hldm hdst hout
    exact hfit.node_carried hsteps hnk hstore hload' hstm hsource hcell hidle hldm hdst hout

/-- What comes in is stored, and loaded again when its register holds something else. -/
theorem bindings_follow_writes_store :
    let s : Store :=
      { layout := { registers := ["A", "B"], memorySize := 1, inputs := 1 }
        operands := #[{ kind := .register pcName }, { kind := .register "A" },
          { kind := .register "B" }, { kind := .memory 0 }, { kind := .input 0 }]
        source := .queues [[5]] }
    let program := "STR IN0, , A\nSTM A, , %0\nADD %1, A, A\nLDM %0, , B"
    let m := (loadText { store := s, observer := ({} : Tracker) } program).2
    (s.source.Truthful ∧ s.Laid ∧ s.Unbound ∧
        loadText { store := s, observer := {} } program = (.ok (), m) ∧
        ∀ i ∈ m.program, i.Aimed m.store) ∧
      ((m.after 4).store.operand 1).value = 6 ∧
      ((m.after 4).store.operand 2).node = some ((m.after 1).found 1).node := by
  intro s program m
  have hbuild :
      ({ registers := ["A", "B"], memorySize := 1, inputs := 1, source := .queues [[5]] } :
        Config).build = .ok s := rfl
  obtain ⟨hl, hu⟩ := Config.laid_of_build hbuild
  have hs : s.source.Truthful := Source.queues_truthful _
  have hload : loadText { store := s, observer := {} } program = (.ok (), m) :=
    Prod.ext (by decide +kernel) rfl
  have ha : ∀ i ∈ m.program, i.Aimed m.store := by decide +kernel
  have hsucceeds : m.Succeeds 1 ∧ m.Succeeds 3 := by
    refine ⟨⟨true, ?_⟩, ⟨true, ?_⟩⟩ <;> decide +kernel
  have hidle : ∀ j, 1 < j → j < 3 → m.Succeeds j → (m.after j).rebinds? ≠ some 3 := by
    intro j hj hj' _
    obtain rfl : j = 2 := by omega
    decide +kernel
  have hcarried := (bindings_follow_writes hs hl hu hload ha).2 1 3 1 3 2 (by omega)
    hsucceeds.1 (by decide +kernel) (by decide +kernel) (by decide +kernel) hidle
    hsucceeds.2 (by decide +kernel) (by decide +kernel) (by decide +kernel) (by decide +kernel)
  exact ⟨⟨hs, hl, hu, hload, ha⟩, by decide +kernel, hcarried⟩

end Machine

end Lineage
