import Lineage.Proofs.Derivation.Charting
import Lineage.Proofs.Framing
import Mathlib.Data.List.Sort
import Mathlib.Data.String.Basic

/-!
Branches that are recorded are those that are taken.

The direction of a branch is foreseen from what a peek shows of the condition, and the jump is
decided on when the condition is read. From a truthful source the two agree, so the derivation that
the program counter is bound to and the context that begins tell where the program goes, be the
derivation new or one that is found again. A jump on a constant leaves no record.
-/

namespace Lineage

variable {g g' : Graph} {s : Store} {m : Machine Tracker} {a dst : OperandId} {p x : Reading}
  {taken running : Bool}

/-! ### Contexts -/

namespace Tracker

lemma place_eq_orderedInsert (text : String) (texts : List String) :
    place text texts = texts.orderedInsert (· ≤ ·) text := by
  induction texts with
  | nil => rfl
  | cons other rest ih => simp only [place, List.orderedInsert_cons, ih]

lemma foldr_place (texts : List String) :
    texts.foldr place [] = texts.insertionSort (· ≤ ·) := by
  induction texts with
  | nil => rfl
  | cons text rest ih =>
    rw [List.foldr_cons, ih, place_eq_orderedInsert, List.insertionSort_cons]

/-- What a context records of an operand does not depend on later nodes. -/
lemma stateText_extends (hg : g.Extends g') (hb : s.BoundIn g) (id : OperandId) :
    stateText g' (s.operand id) = stateText g (s.operand id) := by
  unfold stateText
  cases hn : (s.operand id).node with
  | none => rfl
  | some n => simp only [hg.node (hb hn)]

end Tracker

/-! ### Derivations of jumps -/

namespace Graph

lemma getElem?_nodes {k : NodeId} (hk : k < g.size) : g.nodes.toList[k]? = some (g.node k) := by
  have hlt : k < g.nodes.size := hk
  simp [node, Array.getD_eq_getD_getElem?, hlt]

lemma Grows.linkCount (h : g.Grows g') : g'.linkCount = g.linkCount := by
  have htake : g'.nodes.toList.take g.size = g.nodes.toList := by
    apply List.ext_getElem?
    intro k
    rw [List.getElem?_take]
    split
    · next hk => rw [getElem?_nodes (h.lt hk), h.node hk, getElem?_nodes hk]
    · next hk => rw [List.getElem?_eq_none (by simpa [size] using hk)]
  have hdrop : (g'.nodes.toList.drop g.size).countP (fun n => n.derivation?.isSome) = 0 := by
    refine List.countP_eq_zero.2 fun n hn => ?_
    obtain ⟨k, hk⟩ := List.mem_iff_getElem?.1 hn
    rw [List.getElem?_drop] at hk
    have hlt : g.size + k < g'.size := by
      simpa [size] using (List.getElem?_eq_some_iff.1 hk).1
    rw [getElem?_nodes hlt, Option.some.injEq] at hk
    rw [← hk, h.added (Nat.le_add_right _ _) hlt]
    exact Bool.false_ne_true
  rw [Graph.linkCount, ← List.take_append_drop g.size g'.nodes.toList, List.countP_append, htake,
    hdrop, Nat.add_zero, Graph.linkCount]

/-- A derivation of a jump has a source for the program counter and then one for the condition, be
it found or added. -/
lemma Charted.derive_jump (h : g.Charted) (context : String) (v : Value) (hp : p.name = pcName)
    (hpc : p.operand = some Store.pc)
    (hx : x.name = pcName → x.operand = some Store.pc ∧ x.node = p.node) :
    let r := g.derive context pcName (Operator.jump taken).text [p.link, x.link] v
    ∃ d, (r.2.node r.1).derivation? = some d ∧ (r.2.node r.1).value = v ∧
      d.label = (Operator.jump taken).text ∧ r.2.InOrder Store.pc p x d.sources := by
  intro r
  rcases g.derive_cases context pcName (Operator.jump taken).text [p.link, x.link] v with
    ⟨hsame, hlt, hderived⟩ | hpush
  · obtain ⟨d, ho, hv, hlabel, hperm, -⟩ := isDerivedAs_iff.1 hderived
    have hd : (g.node r.1).derivation? = some d := by rw [Node.derivation?, ho]
    -- in the other order the program counter would be the condition
    have hids : d.identities = [g.identity pcName p.link, g.identity pcName x.link] := by
      rcases List.perm_pair.1 hperm with hids | hids
      · exact hids
      · have hname := h.jumps _ hlt d taken _ _ hd hlabel hids
        rw [fst_identity] at hname
        have hlink : x.link = p.link := by
          rw [Reading.link, Reading.link, (hx hname).2, hp, show x.name = pcName from hname]
        rw [hids, hlink]
    replace hsame : r.2 = g := hsame
    rw [hsame]
    exact ⟨d, hd, hv, hlabel,
      (h.linked _ hlt).inOrder hd (fun _ => hpc) (fun hn => (hx hn).1) hids⟩
  · have hnode : r.2.node r.1 =
        g.derived context pcName (Operator.jump taken).text [p.link, x.link] v := by
      rw [show r = _ from hpush]
      exact g.node_push_size _
    rw [hnode]
    exact ⟨_, rfl, rfl, rfl, .inl rfl, .inl rfl⟩

end Graph

/-! ### Names -/

lemma Store.Laid.eq_pc_of_name {id : OperandId} (h : s.Laid) (hlt : id < s.operands.size)
    (hn : (s.operand id).name = pcName) : id = pc :=
  h.eq_of_kind h.kind_pc.1 hlt (by rw [h.kind_pc.2]; rfl)
    ((Kind.eq_of_name_pc hn).trans h.kind_pc.2.symm)

/-- Two readings of the program counter have one node, if it is no constant. -/
lemma Reading.Of.node_eq_pc (hx : x.Of g s Store.pc) (hp : p.Of g s Store.pc) (hl : s.Laid)
    (hc : x.constant = false) : x.node = p.node := by
  cases hn : (s.operand Store.pc).node with
  | some n => rw [hx.bound hn, hp.bound hn]
  | none =>
    have hknown : (s.operand Store.pc).isKnown = true := by
      rw [Operand.isKnown, hl.kind_pc.2]
    rw [hx.constant, (hx.known hn hknown).1] at hc
    cases hc

namespace Machine

/-! ### Jumps -/

lemma Fit.done_of_ok (h : m.Fit) (hok : m.step.1 = .ok running) :
    ∃ e u v flow, m.next.execute m.told.2 = .ok flow v ∧ m.next.Reads m.planned.2.2 e u ∧
      Instruction.perform e u = .ok flow v ∧
      Done m m.step.2 m.planned.2.1.graph m.decision e := by
  cases hexec : m.next.execute m.told.2 with
  | error f v =>
    rw [step_of_error hexec] at hok
    cases hok
  | ok flow v =>
    obtain ⟨e, u, heff, hperf⟩ := bind_ok hexec
    have hreads := Instruction.reads_of_effect heff
    rw [step_of_ok hexec]
    exact ⟨e, u, v, flow, rfl, hreads, hperf,
      done_of_reads h.truthful h.laid h.fits.bound hreads hperf⟩

/-- A branch is decided on at a jump exactly if its condition is not found to be a constant. -/
lemma Fit.planned_jump (h : m.Fit) (hop : m.next.opcode = .jcc) (ha : m.next.id? .a = some a)
    (hdst : m.next.id? .dst = some dst) :
    (m.found a).Of m.planned.2.1.graph m.store a ∧
      if (m.found a).constant then m.decision = .nothing
      else ∃ p : Reading, p.Of m.planned.2.1.graph m.store Store.pc ∧
        m.decision = .branch ((m.found a).value ≠ 0) p (m.found a) := by
  obtain ⟨start, hstart⟩ :
      ∃ start, start = (({ m.observer with pending := none } : Tracker), m.store) := ⟨_, rfl⟩
  have hread : ∀ {q}, Tracker.Looked start q → ∀ id,
      (Tracker.read id q).1.Of (Tracker.read id q).2.1.graph m.store id := by
    intro q hq
    rw [hstart] at hq
    exact Tracker.read_of_looked (t := { m.observer with pending := none }) h.truthful
      h.fits.bound hq
  have hfound : m.found a = (Tracker.read a start).1 := by rw [hstart, found]
  have hplanned : m.planned = Tracker.plan m.next start := by rw [hstart, planned]
  rw [decision, hplanned, hfound, Tracker.plan_jcc hop ha hdst]
  cases hc : (Tracker.read a start).1.constant with
  | true => exact ⟨hread (.refl _) a, rfl⟩
  | false =>
    have hpc := hread (Tracker.looks_read a start) Store.pc
    have hx := (hread (.refl _) a).mono (Tracker.looks_read Store.pc _).graph.toExtends
    exact ⟨hx, _, hpc, rfl⟩

/-- The program counter is bound to the derivation of a jump in the direction, with the value that
it has, from the program counter and the condition as they were read. -/
def BoundToJump (m : Machine Tracker) (taken : Bool) (p x : Reading) : Prop :=
  ∃ k d, (m.store.operand Store.pc).node = some k ∧
    (m.observer.graph.node k).derivation? = some d ∧
    d.label = (if taken then "jcc (Y)" else "jcc (N)") ∧
    (m.observer.graph.node k).value = m.store.pcValue ∧
    m.observer.graph.InOrder Store.pc p x d.sources

/-- The context tells of a jump from where the machine is, and of the operands collected, one text
each and in order. -/
def Tags (m : Machine Tracker) (taken : Bool) (collected : List OperandId) (context : String) :
    Prop :=
  ∃ states : List String,
    context = (if taken then "Y" else "N") ++ "@" ++ Value.text m.store.pcValue ++ "|" ++
      ";".intercalate states ∧
    states.Pairwise (· ≤ ·) ∧
    states.Perm (collected.map fun id =>
      Tracker.stateText m.observer.graph (m.store.operand id))

lemma Charted.boundToJump (h : m.Charted) (hd : m.decision = .branch taken p x) {e : Effect}
    (hdone : Done m m.step.2 m.planned.2.1.graph m.decision e)
    (hp : p.Of m.planned.2.1.graph m.store Store.pc) (hx : x.Of m.planned.2.1.graph m.store a)
    (hc : x.constant = false) (hlt : a < m.store.operands.size) :
    m.step.2.BoundToJump taken p x := by
  obtain ⟨u, v, hs, hf, hr⟩ := hdone.effect
  have hl : v.Laid := (h.laid.steady hs).congr hf.layout hf.size hf.kind
  have hcharted : m.planned.2.1.graph.Charted := h.charted.grows m.planned_looked.graph
  -- what is read under the name of the program counter is the program counter
  have hsame : x.name = pcName → x.operand = some Store.pc ∧ x.node = p.node := by
    intro hn
    rw [hx.name] at hn
    obtain rfl := h.laid.eq_pc_of_name hlt hn
    exact ⟨hx.operand, hx.node_eq_pc hp h.laid hc⟩
  have hlabel : (Operator.jump taken).text = if taken then "jcc (Y)" else "jcc (N)" := by
    cases taken <;> rfl
  have hrecorded : (v.operand Store.pc).recorded = v.pcValue := by
    rw [Operand.recorded, hl.kind_pc.2, Store.pcValue]
  rw [hd] at hr
  unfold BoundToJump
  generalize m.step.2.observer.graph = g' at hr ⊢
  generalize m.step.2.store = s' at hr ⊢
  cases hr with
  | branch context hr =>
    rw [hl.name_pc, hrecorded] at hr
    subst hr
    obtain ⟨d, hderivation, hvalue, hlabel', horder⟩ := hcharted.derive_jump context v.pcValue
      (hp.name.trans h.laid.name_pc) hp.operand hsame
    refine ⟨_, d, v.node_bind_self _ hl.kind_pc.1, hderivation, hlabel'.trans hlabel, ?_, horder⟩
    rw [hvalue, Store.pcValue, Store.pcValue, Store.value_bind]

lemma Charted.tags_branch (h : m.Charted) (hd : m.decision = .branch taken p x)
    (hp : p.operand = some Store.pc) (hx : x.operand = some a)
    (hc : (m.store.operand a).kind.isConstant = false) :
    ∃ collected, m.Tags taken collected m.step.2.observer.context ∧ collected.Nodup ∧
      ∀ id, id ∈ collected ↔ id = Store.pc ∨ id = a ∨ id ∈ m.observer.marked := by
  have hgrows : m.observer.graph.Grows m.planned.2.1.graph := m.planned_looked.graph
  obtain ⟨collected, hcontext, hnodup, hmem⟩ := context_of_branch h.nodup hd
  refine ⟨collected, ⟨_, hcontext, ?_, ?_⟩, hnodup, fun id => ?_⟩
  · rw [Tracker.foldr_place]
    exact List.pairwise_insertionSort ..
  · rw [Tracker.foldr_place]
    refine (List.perm_insertionSort ..).trans (.of_eq (List.map_congr_left fun id _ => ?_))
    exact Tracker.stateText_extends hgrows.toExtends h.fits.bound id
  · -- a branch is about the program counter, as its target and as a source, and the condition
    have hpc : (m.store.operand Store.pc).kind.isConstant = false := by
      rw [h.laid.kind_pc.2]
      rfl
    rw [hmem, hd]
    simp only [Decision.marks, List.filterMap_cons_some hp, List.filterMap_cons_some hx,
      List.filterMap_nil, List.mem_cons, List.not_mem_nil, or_false]
    constructor
    · rintro (hid | ⟨-, rfl | rfl | rfl⟩)
      · exact .inr (.inr hid)
      · exact .inl rfl
      · exact .inl rfl
      · exact .inr (.inl rfl)
    · rintro (rfl | rfl | hid)
      · exact .inr ⟨hpc, .inl rfl⟩
      · exact .inr ⟨hc, .inr (.inr rfl)⟩
      · exact .inl hid

lemma Fit.not_constant (h : m.Fit) (hx : x.Of g m.store a) (hc : x.constant = false) :
    (m.store.operand a).kind.isConstant = false := by
  cases hk : (m.store.operand a).kind with
  | register | memory | input | output => rfl
  | constant v =>
    have hn := h.fits.unbound (show (m.store.operand a).isWritable = false by
      rw [Operand.isWritable, hk])
    rw [hx.constant, (hx.known hn (by rw [Operand.isKnown, hk])).1] at hc
    cases hc

lemma Fit.flow_eq (h : m.Fit) (hop : m.next.opcode = .jcc) (ha : m.next.id? .a = some a)
    (hx : x.Of g m.store a) {e : Effect} {u v : Store} {flow : Flow}
    (hreads : m.next.Reads m.planned.2.2 e u) (hperf : Instruction.perform e u = .ok flow v)
    (hpc : m.step.2.store.pcValue = e.pcAfter m.store.pcValue) :
    flow = if decide (x.value ≠ 0) then .jump m.step.2.store.pcValue else .next := by
  have hvalue : (m.planned.2.2.read a).1 = x.value := by
    rw [(m.planned_looked.store.read h.truthful a).1, Store.read_value h.truthful, hx.value]
  cases hreads with
  | pass _ ha' hz =>
    cases ha.symm.trans ha'
    cases hperf
    rw [if_neg (by simpa [← hvalue] using hz)]
  | jump _ ha' _ hz =>
    cases ha.symm.trans ha'
    cases hperf
    rw [if_pos (by simpa [← hvalue] using hz), hpc, Effect.pcAfter]
  | _ hop' => rw [hop] at hop'; cases hop'

/-- **Branches that are recorded are those that are taken**: whatever has happened to a machine, a
jump on a condition that is no constant binds the program counter to a derivation in the direction
that the jump takes, and begins a context for that direction, which tells of the operands that steps
were about since the branch before it, of the program counter and of the condition. A jump on a
constant records nothing, and no other operation begins a context. -/
theorem branches_agree_with_jumps {ms : List (Machine Tracker)} (hs : s.source.Truthful)
    (hl : s.Laid) (hu : s.Unbound) (h : Becomes s m ms) :
    (m.next.opcode ≠ .jcc → m.step.2.observer.context = m.observer.context) ∧
      (m.next.opcode = .jcc → ∃ a, m.next.id? .a = some a ∧ m.step.1 = .ok true ∧
        (m.found a).Of m.step.2.observer.graph m.store a ∧
        ((m.found a).constant = true →
          m.step.2.observer.context = m.observer.context ∧
          (m.step.2.store.operand Store.pc).node = (m.store.operand Store.pc).node ∧
          m.step.2.observer.graph.linkCount = m.observer.graph.linkCount) ∧
        ((m.found a).constant = false → ∃ taken p collected,
          (∃ v, m.next.execute m.told.2 =
            .ok (if taken then .jump m.step.2.store.pcValue else .next) v) ∧
          p.Of m.step.2.observer.graph m.store Store.pc ∧
          m.step.2.BoundToJump taken p (m.found a) ∧
          m.Tags taken collected m.step.2.observer.context ∧ collected.Nodup ∧
          ∀ id, id ∈ collected ↔ id = Store.pc ∨ id = a ∨
            ∃ k ∈ ms, (k.store.operand id).kind.isConstant = false ∧ id ∈ k.decision.marks)) := by
  have hcharted := h.charted hs hl hu
  have hdecoded := (h.decoded hl).1
  refine ⟨fun hop => context_of_not_branches (not_branches_of_opcode hop), fun hop => ?_⟩
  obtain ⟨a, dst, ha, hdst, hok, -⟩ := hdecoded.affected_jump .tracker hop
  obtain ⟨hx, hdecision⟩ := hcharted.planned_jump hop ha hdst
  obtain ⟨e, u, v, flow, hexec, hreads, hperf, hdone⟩ := hcharted.done_of_ok hok
  have hpc := hdone.pcValue hcharted.laid
  refine ⟨a, ha, hok, hx.mono hdone.graph, fun hc => ?_, fun hc => ?_⟩
  · -- a condition that is found at a constant decides nothing
    rw [if_pos hc] at hdecision
    have hnone : m.decision.target? ≠ some Store.pc := by
      rw [hdecision]
      exact nofun
    refine ⟨context_of_not_branches ?_, hdone.node_other hcharted.laid.pc_not_input hnone, ?_⟩
    · rintro ⟨taken, p, x, hd⟩
      rw [hdecision] at hd
      cases hd
    · obtain ⟨_, _, -, -, hr⟩ := hdone.effect
      rw [hdecision] at hr
      have hgraph : m.step.2.observer.graph = m.planned.2.1.graph := by
        generalize m.step.2.observer.graph = g' at hr ⊢
        generalize m.step.2.store = s' at hr
        cases hr
        rfl
      rw [hgraph]
      exact Graph.Grows.linkCount m.planned_looked.graph
  · -- any other condition is recorded as a branch
    rw [if_neg (by rw [hc]; exact Bool.false_ne_true)] at hdecision
    obtain ⟨p, hp, hd⟩ := hdecision
    obtain ⟨collected, htags, hnodup, hmem⟩ :=
      hcharted.tags_branch hd hp.operand hx.operand (hcharted.not_constant hx hc)
    refine ⟨_, p, collected, ⟨v, ?_⟩, hp.mono hdone.graph,
      hcharted.boundToJump hd hdone hp hx hc (hdecoded.next.inRange .a a ha), htags, hnodup,
      fun id => ?_⟩
    · rw [hexec, hcharted.flow_eq hop ha hx hreads hperf hpc]
    · rw [hmem, h.mem_marked]

/-- A jump to itself while a channel gives 1. The fourth one finds the derivation of the third,
whose first source is an earlier node of the program counter. -/
theorem branches_agree_with_jumps_loop :
    let s : Store :=
      { layout := { inputs := 1 }
        operands := #[{ kind := .register pcName }, { kind := .input 0 }]
        source := .queues [[1, 1, 1, 1]] }
    let m := ((loadText { store := s, observer := ({} : Tracker) } "JCC IN0, , %0").2).after 3
    (s.source.Truthful ∧ s.Laid ∧ s.Unbound ∧ Becomes s m []) ∧
      (m.next.opcode = .jcc ∧ (m.found 1).constant = false) ∧
      (m.step.2.store.operand Store.pc).node = (m.store.operand Store.pc).node ∧
      ∃ taken p, m.step.2.BoundToJump taken p (m.found 1) := by
  intro s m
  have hbuild : ({ inputs := 1, source := .queues [[1, 1, 1, 1]] } : Config).build = .ok s := rfl
  obtain ⟨hl, hu⟩ := Config.laid_of_build hbuild
  have hs : s.source.Truthful := Source.queues_truthful _
  have hm : Becomes s m [] := by
    refine .branch (.branch (.branch (.loadText _ .start) ?first) ?second) ?third
    case first =>
      exact ⟨true, ⟨some 0, "PC", 1, 0, true⟩, ⟨some 1, "IN0", 0, 1, false⟩, by decide +kernel⟩
    case second =>
      exact ⟨true, ⟨some 0, "PC", 2, 0, false⟩, ⟨some 1, "IN0", 0, 1, false⟩, by decide +kernel⟩
    case third =>
      exact ⟨true, ⟨some 0, "PC", 3, 0, false⟩, ⟨some 1, "IN0", 0, 1, false⟩, by decide +kernel⟩
  have hop : m.next.opcode = .jcc := by decide +kernel
  have hc : (m.found 1).constant = false := by decide +kernel
  have hid : m.next.id? .a = some 1 := by decide +kernel
  obtain ⟨a, ha, -, -, -, hjump⟩ := (branches_agree_with_jumps hs hl hu hm).2 hop
  cases ha.symm.trans hid
  obtain ⟨taken, p, -, -, -, hbound, -⟩ := hjump hc
  exact ⟨⟨hs, hl, hu, hm⟩, ⟨hop, hc⟩, by decide +kernel, taken, p, hbound⟩

end Machine

end Lineage
