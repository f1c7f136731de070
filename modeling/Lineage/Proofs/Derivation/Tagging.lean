import Lineage.Proofs.Derivation.Tags

/-!
Contexts keep derivations apart.

The operands that a context tells of are operands that a program can name, so their names tell them
apart, on all machines of one layout. Two branches therefore start the same context exactly if they
have seen the same: the direction, the program counter, and the operands collected, with their
values and shapes. A derivation has the context of the last branch before it, so the steps that
share its node come behind branches that have seen the same.
-/

namespace Lineage

variable {s s' t : Store} {i : Instruction} {id : OperandId} {n : NodeId}
  {m m₀ m' : Machine Tracker} {ks ms ms' : List (Machine Tracker)}

/-! ### Operands that a program can name -/

/-- The operand is there, it is no constant, and its name is read as that operand. -/
structure Store.Calls (s : Store) (id : OperandId) : Prop where
  lt : id < s.operands.size
  not_constant : (s.operand id).kind.isConstant = false
  spoken : (s.operand id).kind.Spoken

namespace Store.Calls

lemma sameFrame (h : s.Calls id) (hf : s.SameFrame t) : t.Calls id := by
  refine ⟨hf.size ▸ h.lt, ?_, ?_⟩ <;> rw [hf.kind]
  · exact h.not_constant
  · exact h.spoken

lemma interned (h : s.Calls id) (hi : s.Interned t) : t.Calls id := by
  refine ⟨Nat.lt_of_lt_of_le h.lt hi.size_le, ?_, ?_⟩ <;> rw [hi.operand_eq h.lt]
  · exact h.not_constant
  · exact h.spoken

lemma not_mem_name (h : s.Calls id) {c : Char} (hc : isNameChar c = false) :
    c ∉ (s.operand id).name.toList := fun hmem => by
  rw [h.spoken.chars.2 c hmem] at hc
  cases hc

lemma eq_of_name {j : OperandId} (h : s.Calls id) (h' : s'.Calls j) (hl : s.Laid) (hl' : s'.Laid)
    (hlayout : s'.layout = s.layout) (hn : (s'.operand j).name = (s.operand id).name) :
    j = id ∧ (s'.operand j).kind = (s.operand id).kind := by
  have hk := h'.spoken.eq_of_name h.spoken hn
  have hid := hl.mem_kinds h.lt h.not_constant
  have hj := hl'.mem_kinds h'.lt h'.not_constant
  rw [hlayout, hk, ← hid] at hj
  exact ⟨(List.getElem?_inj (List.getElem?_eq_some_iff.1 (hj.trans hid)).1
    (Layout.nodup_kinds hl.names)).1 hj, hk⟩

end Store.Calls

lemma Instruction.Spoken.calls (h : i.Spoken s) (hl : s.Laid) (hr : i.Reaches s id)
    (hc : (s.operand id).kind.isConstant = false) : s.Calls id := by
  rcases hr with ⟨slot, hslot⟩ | rfl | ⟨address, hcell⟩
  · obtain ⟨hlt, hspoken⟩ := h slot id hslot
    exact ⟨hlt, hc, hspoken⟩
  · refine ⟨hl.kind_pc.1, hc, ?_⟩
    rw [hl.kind_pc.2]
    rfl
  · obtain ⟨⟨-, hlt, -⟩, hkind⟩ := hl.kind_memoryCell hcell
    refine ⟨hlt, hc, ?_⟩
    rw [hkind]
    have haddress := address.toInt_lt
    exact Kind.spoken_memory (by rw [show UInt64.size = 2 ^ 64 from rfl]; omega)

namespace Machine

/-! ### What is collected -/

/-- Instructions and marks are about operands that can be named, no operand is marked twice, and
shapes can be told from what follows them. -/
structure Telling (l : Layout) (m : Machine Tracker) : Prop where
  laid : m.store.Laid
  layout : m.store.layout = l
  program : ∀ i ∈ m.program, i.Spoken m.store
  marked : ∀ id ∈ m.observer.marked, m.store.Calls id
  nodup : m.observer.marked.Nodup
  unbroken : m.observer.graph.All Node.Unbroken

namespace Telling

variable {l : Layout}

lemma next (h : m.Telling l) : m.next.Spoken m.store := by
  rcases m.next_mem with hmem | heq
  · exact h.program _ hmem
  · rw [heq]
    exact .unknown _

/-- What is decided on is about operands that can be named, constants apart. -/
lemma calls (h : m.Telling l) (hid : id ∈ m.decision.marks)
    (hc : (m.store.operand id).kind.isConstant = false) : m.store.Calls id :=
  h.next.calls h.laid ((Tracker.plans_plan _ _).reaches hid) hc

lemma loadText (h : m.Telling l) (program : String) : (m.loadText program).2.Telling l := by
  unfold Machine.loadText
  cases hd : decode program m.store with
  | ok is t =>
    have hi : m.store.Interned t := (keeps_decode .interned program).ok hd
    exact ⟨hi.laid h.laid, hi.layout.trans h.layout, spoken_of_decode h.laid hd,
      fun id hid => (h.marked id hid).interned hi, h.nodup, h.unbroken⟩
  | error e t =>
    have hi : m.store.Interned t := (keeps_decode .interned program).error hd
    exact ⟨hi.laid h.laid, hi.layout.trans h.layout, fun i hmem => (h.program i hmem).interned hi,
      fun id hid => (h.marked id hid).interned hi, h.nodup, h.unbroken⟩

lemma write (h : m.Telling l) {v : Value} (hw : m.store.write id v = .ok t) :
    Telling l { m with store := t } := by
  have hframe := Store.write_sameFrame hw
  exact ⟨hframe.laid h.laid, hframe.layout.trans h.layout,
    fun i hmem => (h.program i hmem).sameFrame hframe,
    fun id hid => (h.marked id hid).sameFrame hframe, h.nodup, h.unbroken⟩

lemma nodeOf (h : m.Telling l) (id : OperandId) : (m.nodeOf id).2.Telling l := by
  obtain ⟨g, -, hobserver⟩ := m.observer_nodeOf id
  refine ⟨h.laid, h.layout, h.program, by rw [hobserver]; exact h.marked,
    by rw [hobserver]; exact h.nodup, h.unbroken.resolve (Node.unbroken_of_constant rfl) ?_⟩
  exact fun hknown => Operand.semicolon_not_mem_name hknown

lemma step (h : m.Telling l) : m.step.2.Telling l := by
  have hcourse := m.step_course
  have hframe := hcourse.sameFrame
  refine ⟨hframe.laid h.laid, hframe.layout.trans h.layout, fun i hmem => ?_, fun id hid => ?_,
    nodup_step h.nodup, hcourse.unbroken h.unbroken⟩
  · rw [hcourse.program] at hmem
    exact (h.program i hmem).sameFrame hframe
  · refine Store.Calls.sameFrame ?_ hframe
    rw [marked_step] at hid
    by_cases hb : m.Branches
    · -- a branch empties the marks
      rw [marked_adopted_of_branches hb] at hid
      cases hid
    · -- any other step adds what it is about
      rcases (mem_marked_adopted hb).1 hid with hid | ⟨hc, hid⟩
      · exact h.marked id hid
      · exact h.calls hid hc

end Telling

lemma Becomes.telling (h : Becomes s m ms) (hl : s.Laid) : m.Telling s.layout := by
  induction h with
  | start => exact ⟨hl, rfl, nofun, nofun, List.nodup_nil, .empty⟩
  | loadText program _ ih => exact ih.loadText program
  | write _ hw ih => exact ih.write hw
  | nodeOf id _ ih => exact ih.nodeOf id
  | step _ _ ih | branch _ _ ih => exact ih.step

/-! ### What branches see -/

/-- The direction of a branch. -/
def direction? (m : Machine Tracker) : Option Bool :=
  match m.decision with
  | .branch taken _ _ => some taken
  | _ => none

/-- The operand is collected by a branch: a step since the branch before it was about it, of those
in the list and the branch itself. -/
def Collects (m : Machine Tracker) (ms : List (Machine Tracker)) (id : OperandId) : Prop :=
  ∃ k ∈ m :: ms, (k.store.operand id).kind.isConstant = false ∧ id ∈ k.decision.marks

/-- The value and the shape that a branch records of an operand. -/
def sees (m : Machine Tracker) (id : OperandId) : Value × String :=
  Tracker.state m.planned.2.1.graph (m.store.operand id)

/-- Two branches go in one direction, at one place, and have collected the same operands, of which
they record the same. -/
structure SawAlike (m : Machine Tracker) (ms : List (Machine Tracker)) (m' : Machine Tracker)
    (ms' : List (Machine Tracker)) : Prop where
  direction : m'.direction? = m.direction?
  pc : m'.store.pcValue = m.store.pcValue
  collected : ∀ id, m'.Collects ms' id ↔ m.Collects ms id
  kind : ∀ id, m.Collects ms id → (m'.store.operand id).kind = (m.store.operand id).kind
  sees : ∀ id, m.Collects ms id → m'.sees id = m.sees id

/-- The context that a branch starts is a tag for what it has collected. -/
lemma Becomes.tag (h : Becomes s m ms) (hl : s.Laid) (hb : m.Branches) :
    ∃ taken marked, m.direction? = some taken ∧
      m.step.2.observer.context = Tracker.tag m.planned.2.1.graph m.store taken marked ∧
      marked ≠ [] ∧ marked.Nodup ∧ (∀ id ∈ marked, m.store.Calls id) ∧
      ∀ id, id ∈ marked ↔ m.Collects ms id := by
  obtain ⟨taken, p, x, hd⟩ := hb
  have htelling := h.telling hl
  obtain ⟨marked, hcontext, hnodup, hmem⟩ := context_of_branch htelling.nodup hd
  have hpc : Store.pc ∈ marked := by
    refine (hmem Store.pc).2 (.inr ⟨?_, by rw [hd]; exact List.mem_cons_self⟩)
    rw [htelling.laid.kind_pc.2]
    rfl
  refine ⟨taken, marked, by rw [direction?, hd], hcontext, List.ne_nil_of_mem hpc, hnodup,
    fun id hid => ?_, fun id => ?_⟩
  · rcases (hmem id).1 hid with hid | ⟨hc, hid⟩
    · exact htelling.marked id hid
    · exact htelling.calls hid hc
  · rw [hmem, h.mem_marked, Collects]
    simp only [List.exists_mem_cons_iff]
    exact or_comm

/-- An operand that one branch tells of is told of by another one with the same texts. -/
lemma exists_sees {l : Layout} {marked marked' : List OperandId} (h : m.Telling l)
    (h' : m'.Telling l) (hcalls : ∀ id ∈ marked, m.store.Calls id)
    (hcalls' : ∀ id ∈ marked', m'.store.Calls id)
    (hperm : (Tracker.stateTexts m.planned.2.1.graph m.store marked).Perm
      (Tracker.stateTexts m'.planned.2.1.graph m'.store marked')) (hid : id ∈ marked) :
    id ∈ marked' ∧ (m'.store.operand id).kind = (m.store.operand id).kind ∧
      m'.sees id = m.sees id := by
  have hcall := hcalls id hid
  -- its text is one of the other branch, and tells the name, the value and the shape
  obtain ⟨j, hj, htext⟩ := List.mem_map.1 (hperm.mem_iff.1 (List.mem_map_of_mem hid))
  have hcall' := hcalls' j hj
  obtain ⟨hname, hstate⟩ := (Tracker.stateText_inj (hcall'.not_mem_name (by decide))
    (hcall.not_mem_name (by decide))).1 htext
  obtain ⟨rfl, hkind⟩ := hcall.eq_of_name hcall' h.laid h'.laid
    (h'.layout.trans h.layout.symm) hname
  exact ⟨hj, hkind, hstate⟩

lemma Becomes.context_iff (h : Becomes s m ms) (h' : Becomes s' m' ms') (hl : s.Laid)
    (hl' : s'.Laid) (hlayout : s'.layout = s.layout) (hb : m.Branches) (hb' : m'.Branches) :
    m'.step.2.observer.context = m.step.2.observer.context ↔ SawAlike m ms m' ms' := by
  have htelling := h.telling hl
  have htelling' : m'.Telling s.layout := hlayout ▸ h'.telling hl'
  obtain ⟨taken, marked, hdirection, hcontext, hne, hnodup, hcalls, hmem⟩ := h.tag hl hb
  obtain ⟨taken', marked', hdirection', hcontext', hne', hnodup', hcalls', hmem'⟩ := h'.tag hl' hb'
  -- the texts in a tag are separated by semicolons, so none of them may have one
  have hclean : ∀ {m : Machine Tracker} {marked : List OperandId}, m.Telling s.layout →
      (∀ id ∈ marked, m.store.Calls id) →
      ∀ text ∈ Tracker.stateTexts m.planned.2.1.graph m.store marked, ';' ∉ text.toList := by
    intro m marked h hcalls text htext
    obtain ⟨id, hid, rfl⟩ := List.mem_map.1 htext
    exact Tracker.semicolon_not_mem_stateText (unbroken_planned h.unbroken)
      ((hcalls id hid).not_mem_name (by decide))
  rw [hcontext, hcontext', Tracker.tag_inj hne' hne (hclean htelling' hcalls')
    (hclean htelling hcalls)]
  constructor
  · -- what one branch tells of is told of by the other one, with the same text
    rintro ⟨rfl, hpc, hperm⟩
    have hsees := fun id hid => exists_sees htelling htelling' hcalls hcalls' hperm.symm
      ((hmem id).2 hid)
    have hsees' := fun id hid => exists_sees htelling' htelling hcalls' hcalls hperm
      ((hmem' id).2 hid)
    exact ⟨hdirection'.trans hdirection.symm, hpc,
      fun id =>
        ⟨fun hid => (hmem id).1 (hsees' id hid).1, fun hid => (hmem' id).1 (hsees id hid).1⟩,
      fun id hid => (hsees id hid).2.1, fun id hid => (hsees id hid).2.2⟩
  · -- both have collected the same operands, each in an order of its own
    intro halike
    have hsame : marked'.Perm marked := (List.perm_ext_iff_of_nodup hnodup' hnodup).2 fun id => by
      rw [hmem, hmem', halike.collected]
    refine ⟨?_, halike.pc, (hsame.map _).trans (.of_eq (List.map_congr_left fun id hid => ?_))⟩
    · have hdirections := halike.direction
      rw [hdirection, hdirection'] at hdirections
      exact Option.some.inj hdirections
    · have hcollects := (hmem id).1 hid
      exact (Tracker.stateText_inj ((hcalls' id (hsame.mem_iff.2 hid)).not_mem_name (by decide))
        ((hcalls id hid).not_mem_name (by decide))).2
        ⟨congrArg Kind.name (halike.kind id hcollects), halike.sees id hcollects⟩

/-! ### Derivations behind branches -/

/-- What one machine has become another one through: programs that are loaded, operands that are
set, nodes that are asked for, and steps. The list holds the machines that have taken a step. -/
inductive Leads (m₀ : Machine Tracker) : Machine Tracker → List (Machine Tracker) → Prop
  | refl : Leads m₀ m₀ []
  | loadText {m : Machine Tracker} {ks : List (Machine Tracker)} (program : String)
      (past : Leads m₀ m ks) : Leads m₀ (m.loadText program).2 ks
  | write {m : Machine Tracker} {ks : List (Machine Tracker)} {id : OperandId} {v : Value}
      {t : Store} (past : Leads m₀ m ks) (writes : m.store.write id v = .ok t) :
      Leads m₀ { m with store := t } ks
  | nodeOf {m : Machine Tracker} {ks : List (Machine Tracker)} (id : OperandId)
      (past : Leads m₀ m ks) : Leads m₀ (m.nodeOf id).2 ks
  | step {m : Machine Tracker} {ks : List (Machine Tracker)} (past : Leads m₀ m ks) :
      Leads m₀ m.step.2 (m :: ks)

lemma extends_step (m : Machine Tracker) :
    m.observer.graph.Extends m.step.2.observer.graph := by
  have hadopted : m.observer.graph.Extends m.adopted.graph :=
    (m.planned_looked.graph.trans (Tracker.graph_adopt_grows ..)).toExtends
  rcases m.observer_step with h | ⟨u, h⟩
  · rw [h]
    exact hadopted
  · rw [h]
    exact hadopted.trans (Tracker.settle_extends ..)

namespace Leads

lemma becomes (h : Leads m₀ m ks) (h₀ : Becomes s m₀ ms) : ∃ ms', Becomes s m ms' := by
  induction h with
  | refl => exact ⟨ms, h₀⟩
  | loadText program _ ih => exact ⟨_, .loadText program ih.choose_spec⟩
  | write _ hw ih => exact ⟨_, .write ih.choose_spec hw⟩
  | nodeOf id _ ih => exact ⟨_, .nodeOf id ih.choose_spec⟩
  | @step m _ _ ih =>
    obtain ⟨ms', ih⟩ := ih
    by_cases hb : m.Branches
    · exact ⟨_, .branch ih hb⟩
    · exact ⟨_, .step ih hb⟩

lemma extends_graph (h : Leads m₀ m ks) : m₀.observer.graph.Extends m.observer.graph := by
  induction h with
  | refl => exact .refl _
  | loadText program _ ih => rwa [observer_loadText]
  | write _ _ ih => exact ih
  | nodeOf id _ ih => exact ih.trans (Tracker.resolve_grows ..).toExtends
  | step _ ih => exact ih.trans (extends_step _)

lemma context (h : Leads m₀ m ks) (hks : ∀ k ∈ ks, ¬ k.Branches) :
    m.observer.context = m₀.observer.context := by
  induction h with
  | refl => rfl
  | loadText program _ ih => rw [observer_loadText, ih hks]
  | write _ _ ih => exact ih hks
  | @nodeOf m _ id _ ih =>
    obtain ⟨g, -, hobserver⟩ := m.observer_nodeOf id
    rw [hobserver, ih hks]
  | step _ ih =>
    rw [List.forall_mem_cons] at hks
    rw [context_of_not_branches hks.1, ih hks.2]

end Leads

/-- The last branch that a machine has come through, with the machines that had taken a step since
the branch before that. -/
structure LastBranch (s : Store) (m b : Machine Tracker) (bs : List (Machine Tracker)) : Prop where
  past : Becomes s b bs
  branches : b.Branches
  since : ∃ ks, Leads b.step.2 m ks ∧ ∀ k ∈ ks, ¬ k.Branches

namespace LastBranch

variable {b b' : Machine Tracker} {bs bs' : List (Machine Tracker)}

lemma context (h : LastBranch s m b bs) :
    m.observer.context = b.step.2.observer.context := by
  obtain ⟨ks, hleads, hks⟩ := h.since
  exact hleads.context hks

lemma context_ne_empty (h : LastBranch s m b bs) (hl : s.Laid) : m.observer.context ≠ "" := by
  obtain ⟨taken, marked, -, htag, -⟩ := h.past.tag hl h.branches
  rw [h.context, htag]
  intro hempty
  have hchars := congrArg String.toList hempty
  rw [Tracker.toList_tag] at hchars
  cases hchars

/-- Machines with one context have last come through branches that have seen the same. -/
lemma sawAlike (h : LastBranch s m b bs) (h' : LastBranch s m' b' bs') (hl : s.Laid)
    (hcontext : m'.observer.context = m.observer.context) : SawAlike b bs b' bs' := by
  rw [h.context, h'.context] at hcontext
  exact (h.past.context_iff h'.past hl hl rfl h.branches h'.branches).1 hcontext

end LastBranch

lemma Becomes.lastBranch (h : Becomes s m ms) :
    m.observer.context = "" ∨ ∃ b bs, LastBranch s m b bs := by
  -- whatever is no branch leaves the context, and goes on from the last branch
  have hpass : ∀ {m m' : Machine Tracker}, m'.observer.context = m.observer.context →
      (∀ {b ks}, Leads b m ks → (∀ k ∈ ks, ¬ k.Branches) →
        ∃ ks', Leads b m' ks' ∧ ∀ k ∈ ks', ¬ k.Branches) →
      (m.observer.context = "" ∨ ∃ b bs, LastBranch s m b bs) →
      m'.observer.context = "" ∨ ∃ b bs, LastBranch s m' b bs := by
    rintro m m' hcontext hleads (hempty | ⟨b, bs, hpast, hb, ks, hks, hstraight⟩)
    · exact .inl (hcontext.trans hempty)
    · exact .inr ⟨b, bs, hpast, hb, hleads hks hstraight⟩
  induction h with
  | start => exact .inl rfl
  | loadText program _ ih =>
    exact hpass (by rw [observer_loadText]) (fun h hks => ⟨_, .loadText program h, hks⟩) ih
  | write _ hw ih =>
    refine hpass ?_ (fun h hks => ⟨_, .write h hw, hks⟩) ih
    rfl
  | nodeOf id _ ih =>
    exact hpass ((Leads.nodeOf id .refl).context nofun) (fun h hks => ⟨_, .nodeOf id h, hks⟩) ih
  | step _ hb ih =>
    exact hpass (context_of_not_branches hb)
      (fun h hks => ⟨_, .step h, List.forall_mem_cons.2 ⟨hb, hks⟩⟩) ih
  | branch past hb => exact .inr ⟨_, _, past, hb, [], .refl, nofun⟩

end Machine

namespace Tracker

variable {tr : Tracker} {d : Decision} {target : OperandId} {context label : String}
  {links : List Link}

lemma context_of_pendDerived {j : OperandId} {op : Operator} {rs : List Reading}
    (h : (tr.pendDerived s j op rs).pending = some (.derived target context label links)) :
    context = tr.context := by
  rw [pendDerived, Option.some.injEq, Pending.derived.injEq] at h
  exact h.2.1.symm

lemma context_of_pendSource {j : OperandId} {r : Reading}
    (h : (tr.pendSource s j r).pending = some (.derived target context label links)) :
    context = tr.context := by
  by_cases ho : s.IsOutput j
  · rw [pendSource_of_output ho] at h
    exact context_of_pendDerived h
  · rw [pendSource_of_not_output ho] at h
    cases h

/-- What is adopted is pending in the context that the tracker has had before. -/
lemma context_of_pending (hnone : tr.pending = none)
    (h : (tr.adopt s d).pending = some (.derived target context label links)) :
    context = tr.context := by
  unfold adopt at h
  split at h
  · rw [hnone] at h
    cases h
  · exact context_of_pendSource h
  · next target v =>
    obtain ⟨name, hname⟩ := pendConstant_eq tr s target v
    rw [hname] at h
    have hcontext := context_of_pendSource h
    exact hcontext
  · exact context_of_pendDerived h
  · rw [hnone] at h
    cases h
  · exact context_of_pendDerived (s := s) h

end Tracker

namespace Machine

/-- The step derives an operand, and binds it to the node. -/
def DerivesAt (m : Machine Tracker) (n : NodeId) : Prop :=
  ∃ target context label links, m.adopted.pending = some (.derived target context label links) ∧
    (∃ running, m.step.1 = .ok running) ∧ (m.step.2.store.operand target).node = some n

/-- A derivation that is pending has the context that the branch before it has started. -/
lemma context_of_pending {target : OperandId} {context label : String} {links : List Link}
    (h : m.adopted.pending = some (.derived target context label links)) :
    context = m.observer.context := by
  have hlooked := m.planned_looked.tracker
  have hnone : m.planned.2.1.pending = none := by rw [hlooked]
  rw [Tracker.context_of_pending hnone h, hlooked]

lemma DerivesAt.recorded (h : m.DerivesAt n) : n < m.step.2.observer.graph.size ∧
    ∃ d, (m.step.2.observer.graph.node n).derivation? = some d ∧
      d.context = m.observer.context := by
  obtain ⟨target, context, label, links, hpending, ⟨running, hok⟩, hnode⟩ := h
  have hcontext := context_of_pending hpending
  subst hcontext
  obtain ⟨e, u, v, flow, -, -, hstep⟩ := done_of_ok hok
  rw [hstep] at hnode ⊢
  simp only [Tracker.settle, hpending] at hnode ⊢
  have hlt := Store.lt_of_node hnode
  rw [Store.bind, Store.size_modify] at hlt
  rw [Store.node_bind_self _ hlt, Option.some.injEq] at hnode
  rw [← hnode]
  exact ⟨Graph.derive_lt .., Graph.derivation_derive ..⟩

/-- **Contexts keep branches apart**: two branches, of one machine or of two with one layout, start
the same context if and only if they go in one direction, at one place, and have collected the same
operands since the branches before them, each with the same value and shape. Two steps of a machine
share the node of a derivation only if both come behind a branch or none of them does, and the last
branches that they come behind have seen the same. -/
theorem contexts_tell_branches_apart (hl : s.Laid) (hl' : s'.Laid)
    (hlayout : s'.layout = s.layout) :
    (∀ {m ms m' ms'}, Becomes s m ms → m.Branches → Becomes s' m' ms' → m'.Branches →
      (m'.step.2.observer.context = m.step.2.observer.context ↔ SawAlike m ms m' ms')) ∧
    ∀ {m ms m' ks n}, Becomes s m ms → Leads m.step.2 m' ks → m.DerivesAt n → m'.DerivesAt n →
      ((∃ b bs, LastBranch s m b bs) ↔ ∃ b bs, LastBranch s m' b bs) ∧
      ∀ {b bs b' bs'}, LastBranch s m b bs → LastBranch s m' b' bs' → SawAlike b bs b' bs' := by
  refine ⟨fun h hb h' hb' => h.context_iff h' hl hl' hlayout hb hb',
    fun {m ms m' ks n} h hleads hn hn' => ?_⟩
  obtain ⟨_, hstep⟩ := (Leads.step .refl).becomes h
  obtain ⟨_, h'⟩ := hleads.becomes hstep
  obtain ⟨hlt, d, hd, hcontext⟩ := hn.recorded
  obtain ⟨-, d', hd', hcontext'⟩ := hn'.recorded
  -- a node keeps what was recorded at it, and so the context of both steps
  have hcontexts : m'.observer.context = m.observer.context := by
    rw [(hleads.extends_graph.trans m'.extends_step).node hlt, hd, Option.some.injEq] at hd'
    rw [← hcontext, ← hcontext', hd']
  -- there is a context exactly if a branch has started it
  have hiff : ∀ {m ms}, Becomes s m ms →
      ((∃ b bs, LastBranch s m b bs) ↔ m.observer.context ≠ "") := fun h =>
    ⟨fun ⟨b, bs, hb⟩ => hb.context_ne_empty hl, h.lastBranch.resolve_left⟩
  exact ⟨by rw [hiff h, hiff h', hcontexts], fun hb hb' => hb.sawAlike hb' hl hcontexts⟩

/-- A jump to itself, and one of another program on another input that has seen the same. The third
and the fourth time round, the jump to itself is derived at one node. -/
theorem contexts_tell_branches_apart_loop :
    let s : Store :=
      { layout := { inputs := 1 }
        operands := #[{ kind := .register pcName }, { kind := .input 0 }]
        source := .queues [[1, 1, 1, 1]] }
    let s' : Store := { s with source := .queues [[1]] }
    let m := (loadText { store := s, observer := ({} : Tracker) } "JCC IN0, , %0").2
    let m' := (loadText { store := s', observer := ({} : Tracker) } "JCC IN0, , %1").2
    (s.Laid ∧ s'.Laid ∧ s'.layout = s.layout) ∧
      ((Becomes s m [] ∧ m.Branches ∧ Becomes s' m' [] ∧ m'.Branches) ∧
        m'.step.2.observer.context = m.step.2.observer.context ∧ SawAlike m [] m' []) ∧
      (Becomes s (m.after 2) [] ∧ Leads (m.after 2).step.2 (m.after 3) [] ∧
        (m.after 2).DerivesAt 4 ∧ (m.after 3).DerivesAt 4) ∧
      LastBranch s (m.after 2) (m.after 1) [] ∧ LastBranch s (m.after 3) (m.after 2) [] ∧
      SawAlike (m.after 1) [] (m.after 2) [] := by
  intro s s' m m'
  have hbuild : ({ inputs := 1, source := .queues [[1, 1, 1, 1]] } : Config).build = .ok s := rfl
  have hbuild' : ({ inputs := 1, source := .queues [[1]] } : Config).build = .ok s' := rfl
  obtain ⟨hl, -⟩ := Config.laid_of_build hbuild
  obtain ⟨hl', -⟩ := Config.laid_of_build hbuild'
  have hb : m.Branches :=
    ⟨true, ⟨some 0, "PC", 1, 0, true⟩, ⟨some 1, "IN0", 0, 1, false⟩, by decide +kernel⟩
  have hb' : m'.Branches :=
    ⟨true, ⟨some 0, "PC", 1, 0, true⟩, ⟨some 1, "IN0", 0, 1, false⟩, by decide +kernel⟩
  have hb₁ : (m.after 1).Branches :=
    ⟨true, ⟨some 0, "PC", 2, 0, false⟩, ⟨some 1, "IN0", 0, 1, false⟩, by decide +kernel⟩
  have hb₂ : (m.after 2).Branches :=
    ⟨true, ⟨some 0, "PC", 3, 0, false⟩, ⟨some 1, "IN0", 0, 1, false⟩, by decide +kernel⟩
  have hm : Becomes s m [] := .loadText _ .start
  have hm' : Becomes s' m' [] := .loadText _ .start
  have hm₁ : Becomes s (m.after 1) [] := .branch hm hb
  have hm₂ : Becomes s (m.after 2) [] := .branch hm₁ hb₁
  have hcontext : m'.step.2.observer.context = m.step.2.observer.context := by decide +kernel
  have hderives : (m.after 2).DerivesAt 4 :=
    ⟨0, "Y@0|IN0=1:IN0;PC=0:jcc (Y)", "jcc (Y)", [⟨"PC", 3⟩, ⟨"IN0", 0⟩], by decide +kernel,
      ⟨true, by decide +kernel⟩, by decide +kernel⟩
  have hderives' : (m.after 3).DerivesAt 4 :=
    ⟨0, "Y@0|IN0=1:IN0;PC=0:jcc (Y)", "jcc (Y)", [⟨"PC", 4⟩, ⟨"IN0", 0⟩], by decide +kernel,
      ⟨true, by decide +kernel⟩, by decide +kernel⟩
  have hlast : LastBranch s (m.after 2) (m.after 1) [] := ⟨hm₁, hb₁, [], .refl, nofun⟩
  have hlast' : LastBranch s (m.after 3) (m.after 2) [] := ⟨hm₂, hb₂, [], .refl, nofun⟩
  obtain ⟨hiff, hshared⟩ := contexts_tell_branches_apart hl hl' rfl
  exact ⟨⟨hl, hl', rfl⟩, ⟨⟨hm, hb, hm', hb'⟩, hcontext, (hiff hm hb hm' hb').1 hcontext⟩,
    ⟨hm₂, .refl, hderives, hderives'⟩, hlast, hlast',
    (hshared hm₂ .refl hderives hderives').2 hlast hlast'⟩

end Machine

end Lineage
