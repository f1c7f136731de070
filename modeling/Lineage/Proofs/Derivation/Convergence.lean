import Lineage.Proofs.Derivation.Queries
import Lineage.Proofs.Derivation.Retracing

/-!
Loops that converge.

When a machine comes to a state that it has been in before, in the context that it had there, and
goes through the same round again, its graph stays as it is, provided that each decision of the
second round retraces that of the first. A value that is only carried around in one operand does so
by itself. A value that is handed on from one operand to another does not: what is derived from it
is compared by node, and is a new node in each round. Whether decisions retrace others shows in the
instructions of a round, if all that they derive is worked in place.
-/

namespace Lineage.Machine

variable {m m' : Machine Tracker} {g : Graph}

/-- The machines stand at the same point: the operands have the same values and nodes that look the
same, and the context is the same, with the same operands marked since. Right behind a branch, none
are. -/
structure SameState (m m' : Machine Tracker) : Prop where
  values : m.store.SameValues m'.store
  looks : ∀ id < m.store.operands.size, (m'.store.operand id).node.map m'.observer.graph.look =
    (m.store.operand id).node.map m.observer.graph.look
  context : m'.observer.context = m.observer.context
  marked : m'.observer.marked = m.observer.marked

instance (m m' : Machine Tracker) : Decidable (m.SameState m') :=
  decidable_of_iff (m.store.SameValues m'.store ∧ (∀ id < m.store.operands.size,
      (m'.store.operand id).node.map m'.observer.graph.look =
        (m.store.operand id).node.map m.observer.graph.look) ∧
      m'.observer.context = m.observer.context ∧ m'.observer.marked = m.observer.marked)
    ⟨fun ⟨hv, hl, hc, hm⟩ => ⟨hv, hl, hc, hm⟩, fun h => ⟨h.values, h.looks, h.context, h.marked⟩⟩

/-- The next steps execute one instruction on the same input, and do not fault. -/
structure Repeats (m m' : Machine Tracker) : Prop where
  next : m'.next = m.next
  running : ∃ running, m.step.1 = .ok running ∧ m'.step.1 = .ok running
  input : ∃ reads, consuming m.step.2.store.reads = reads ++ consuming m.store.reads ∧
    consuming m'.step.2.store.reads = reads ++ consuming m'.store.reads

def Retraces (g : Graph) (m m' : Machine Tracker) : Prop :=
  m.decision.Retraces g m.store m'.decision

/-! ### Steps -/

lemma Fit.extends_step (h : m.Fit) : m.observer.graph.Extends m.step.2.observer.graph := by
  have htracked := h.tracked
  generalize m.step.1 = r at htracked
  generalize m.step.2 = m' at htracked ⊢
  cases htracked with
  | fault _ _ _ hg => exact hg.toExtends
  | done h' => exact h'.grows.toExtends.trans h'.graph

lemma Fit.extends_after (h : m.Fit) (n k : Nat) :
    (m.after n).observer.graph.Extends (m.after (n + k)).observer.graph := by
  induction k with
  | zero => exact .refl _
  | succ k ih => exact ih.trans (h.after (n + k)).extends_step

section Step

variable (hfit : m.Fit) (hfit' : m'.Fit)
include hfit hfit'

/-- Steps that repeat have one effect, and what they take values from has been shown alike. -/
lemma Repeats.effect (hr : m.Repeats m') (hv : m.store.SameValues m'.store)
    (hsep : m.store.source.Separate ∨ m.store.source.Joint)
    (hsrc : m'.store.source = m.store.source) {e e' : Effect} {u u' v v' : Store}
    {flow flow' : Flow} (hreads : m.next.Reads m.planned.2.2 e u)
    (hreads' : m.next.Reads m'.planned.2.2 e' u') (hf : u.Follows e (advance v flow))
    (hf' : u'.Follows e' (advance v' flow'))
    (hstep : m.step.2.store = (m.adopted.settle (advance v flow)).2)
    (hstep' : m'.step.2.store = (m'.adopted.settle (advance v' flow')).2) :
    e' = e ∧ u.SameValues u' ∧ m.next.ShownAlike m.store m'.store := by
  obtain ⟨rest, hrest, hrest'⟩ := hr.input
  have hpeeked := m.planned_looked.store
  have hpeeked' := m'.planned_looked.store
  rw [hstep, Tracker.reads_settle, hf.reads, ← hpeeked.consuming] at hrest
  rw [hstep', Tracker.reads_settle, hf'.reads, ← hpeeked'.consuming] at hrest'
  have hpaced : Store.Paced u u' m.planned.2.2 m'.planned.2.2 :=
    ⟨hv.peeked hpeeked hpeeked', rest, hrest, hrest'⟩
  obtain ⟨he, hvalues, hshown⟩ := hreads.paced hreads' hpaced
    (by rw [hpeeked.source]; exact hfit.truthful) (by rwa [hpeeked.source])
    (by rw [hpeeked.source, hpeeked'.source, hsrc])
  refine ⟨he, hvalues, fun slot hslot id hid => ?_⟩
  rw [← hpeeked.shown hfit.truthful, ← hpeeked'.shown hfit'.truthful]
  exact hshown slot hslot id hid

lemma Repeats.shownAlike (hr : m.Repeats m') (hv : m.store.SameValues m'.store)
    (hsep : m.store.source.Separate ∨ m.store.source.Joint)
    (hsrc : m'.store.source = m.store.source) : m.next.ShownAlike m.store m'.store := by
  obtain ⟨running, hok, hok'⟩ := hr.running
  obtain ⟨e, u, v, flow, hreads, hperf, hstep⟩ := done_of_ok hok
  obtain ⟨e', u', v', flow', hreads', hperf', hstep'⟩ := done_of_ok hok'
  rw [hr.next] at hreads'
  exact (hr.effect hfit hfit' hv hsep hsrc hreads hreads' (Instruction.follows_of_perform hperf).1
    (Instruction.follows_of_perform hperf').1 (by rw [hstep]) (by rw [hstep'])).2.2

/-- What is planned and adopted adds nothing, and will be found again. -/
lemma Retraces.poised (hd : m.Retraces g m') (hc : g.Consed) (hnext : m'.next = m.next)
    (h : Tracker.Abreast g (m.observer, m.store) (m'.observer, m'.store))
    (hshown : m.next.ShownAlike m.store m'.store) {e e' : Effect} {u u' : Store}
    (hreads : m.next.Reads m.planned.2.2 e u) (hreads' : m.next.Reads m'.planned.2.2 e' u')
    (hg : m.adopted.graph.Extends g) :
    Tracker.Poised g (m.adopted, m.planned.2.2) (m'.adopted, m'.planned.2.2) := by
  have hlooked := m.planned_looked
  have hlooked' := m'.planned_looked
  have hplanned : m.planned.2.1.graph.Extends g :=
    (Tracker.graph_adopt_grows ..).toExtends.trans hg
  have hplan' : m'.planned =
      Tracker.plan m.next ({ m'.observer with pending := none }, m'.store) := by
    rw [planned, hnext]
  have hstart : Tracker.Abreast g ({ m.observer with pending := none }, m.store)
      ({ m'.observer with pending := none }, m'.store) :=
    ⟨h.graph, h.values, h.looks, h.context, h.marked⟩
  have hplan : Tracker.Abreast g m.planned.2 m'.planned.2 := by
    rw [hplan']
    refine hstart.plan hc hfit.truthful hfit'.truthful hfit.laid hshown hplanned (s := m.store) ?_
    rw [← hplan']
    exact hd
  -- the readings of the two plans, in the graph
  have hof := planned_of_reads hfit.truthful hfit.laid hfit.fits.bound hlooked.store hreads
    (t := { m.observer with pending := none })
  have hof' := planned_of_reads hfit'.truthful hfit'.laid hfit'.fits.bound hlooked'.store hreads'
    (t := { m'.observer with pending := none })
  rw [← hplan', hplan.graph] at hof'
  refine hplan.adopt hc (fun hn => ?_) (by rw [hlooked.tracker]) (by rw [hlooked'.tracker])
    (fun r hr => ?_) (fun r hr r' hr' heq => ?_) (hd.sameFrame hlooked.store.sameFrame) hg
  · rw [hlooked.store.operand] at hn
    exact hlooked.graph.lt (hfit.fits.bound hn)
  · obtain ⟨id, hrof⟩ := hof.readings_of hr
    exact hrof.lt
  · obtain ⟨id, hrof, hid⟩ := hof.readings_shown hfit.laid h.values hshown hr
    obtain ⟨id', hrof'⟩ := hof'.readings_of hr'
    rw [hrof.operand, hrof'.operand] at heq
    cases heq
    exact (hrof.mono hplanned).look_eq hrof' hc h.values (h.looks id) hid

/-- A step that retraces another one adds nothing to the graph, and leaves the machines abreast. -/
lemma Retraces.step (hd : m.Retraces g m') (hr : m.Repeats m') (hc : g.Consed)
    (hsep : m.store.source.Separate ∨ m.store.source.Joint)
    (hsrc : m'.store.source = m.store.source)
    (h : Tracker.Abreast g (m.observer, m.store) (m'.observer, m'.store))
    (hg : m.step.2.observer.graph.Extends g) :
    Tracker.Abreast g (m.step.2.observer, m.step.2.store)
      (m'.step.2.observer, m'.step.2.store) := by
  obtain ⟨running, hok, hok'⟩ := hr.running
  obtain ⟨e, u, v, flow, hreads, hperf, hstep⟩ := done_of_ok hok
  obtain ⟨e', u', v', flow', hreads', hperf', hstep'⟩ := done_of_ok hok'
  rw [hr.next] at hreads'
  have hfollows := (Instruction.follows_of_perform hperf).1
  have hfollows' := (Instruction.follows_of_perform hperf').1
  obtain ⟨rfl, hvalues, hshown⟩ := hr.effect hfit hfit' h.values hsep hsrc hreads hreads' hfollows
    hfollows' (by rw [hstep]) (by rw [hstep'])
  rw [hstep] at hg ⊢
  rw [hstep']
  have hpoised := hd.poised hfit hfit' hc hr.next h hshown hreads hreads'
    ((Tracker.settle_extends ..).trans hg)
  -- the effect does the same to the values, and nothing to the nodes
  have hsteady := m.planned_looked.store.steady.trans hreads.steady
  have hsteady' := m'.planned_looked.store.steady.trans hreads'.steady
  have hdone : Tracker.Poised g (m.adopted, advance v flow) (m'.adopted, advance v' flow') := by
    refine ⟨⟨hpoised.graph, hvalues.perform hperf hperf', fun id => ?_, hpoised.context,
      hpoised.marked⟩, hpoised.pending.sameFrame (hreads.steady.sameFrame.trans hfollows.sameFrame)⟩
    rw [hfit.node_eq hsteady hfollows, hfit'.node_eq hsteady' hfollows']
    exact h.looks id
  exact hdone.settle hc hg

end Step

/-! ### Rounds -/

lemma SameState.abreast (h : m.SameState m') (hfit : m.Fit)
    (hg : m.observer.graph.Extends m'.observer.graph) :
    Tracker.Abreast m'.observer.graph (m.observer, m.store) (m'.observer, m'.store) where
  graph := rfl
  values := h.values
  looks id := by
    rcases Nat.lt_or_ge id m.store.operands.size with hlt | hge
    · rw [h.looks id hlt]
      cases hn : (m.store.operand id).node with
      | none => rfl
      | some n => exact congrArg some (hg.look (hfit.fits.bound hn)).symm
    · rw [Store.operand_of_size_le hge, Store.operand_of_size_le (h.values.size ▸ hge)]
  context := h.context
  marked := h.marked

lemma sameState_of_abreast (hfit : m.Fit)
    (h : Tracker.Abreast g (m.observer, m.store) (m'.observer, m'.store))
    (hg : m.observer.graph.Extends g) : m.SameState m' where
  values := h.values
  looks id _ := by
    rw [show m'.observer.graph = g from h.graph, h.looks id]
    cases hn : (m.store.operand id).node with
    | none => rfl
    | some n => exact congrArg some (hg.look (hfit.fits.bound hn))
  context := h.context
  marked := h.marked

/-- Machines that stand at the same point stay abreast over a round, and the second adds nothing to
its graph, if each of its decisions retraces that of the first as long as those before it do. -/
lemma Fit.abreast_round (hfit : m.Fit)
    (hsep : m.store.source.Separate ∨ m.store.source.Joint) {a b n : Nat}
    (hc : (m.after b).observer.graph.Consed) (hab : a + n ≤ b)
    (hstate : (m.after a).SameState (m.after b))
    (hrepeats : ∀ j < n, (m.after (a + j)).Repeats (m.after (b + j)))
    (hretraces : ∀ j < n,
      Tracker.Abreast (m.after b).observer.graph
        ((m.after (a + j)).observer, (m.after (a + j)).store)
        ((m.after (b + j)).observer, (m.after (b + j)).store) →
      (∀ k < j, (m.after (a + k)).Retraces (m.after b).observer.graph (m.after (b + k))) →
      (m.after (a + j)).Retraces (m.after b).observer.graph (m.after (b + j))) :
    (m.after (b + n)).observer.graph = (m.after b).observer.graph ∧
      (m.after (a + n)).SameState (m.after (b + n)) := by
  have hextends : ∀ k ≤ b, (m.after k).observer.graph.Extends (m.after b).observer.graph := by
    intro k hk
    have h := hfit.extends_after k (b - k)
    rwa [Nat.add_sub_cancel' hk] at h
  have hround : ∀ j ≤ n, Tracker.Abreast (m.after b).observer.graph
        ((m.after (a + j)).observer, (m.after (a + j)).store)
        ((m.after (b + j)).observer, (m.after (b + j)).store) ∧
      ∀ k < j, (m.after (a + k)).Retraces (m.after b).observer.graph (m.after (b + k)) := by
    intro j hj
    -- a decision retraces if those before it did, so these go along in the induction
    induction j with
    | zero => exact ⟨hstate.abreast (hfit.after a) (hextends a (by omega)), nofun⟩
    | succ j ih =>
      obtain ⟨habreast, hbefore⟩ := ih (Nat.le_of_succ_le hj)
      have hnow := hretraces j hj habreast hbefore
      refine ⟨hnow.step (hfit.after _) (hfit.after _) (hrepeats j hj) hc ?_ ?_ habreast
        (hextends (a + j + 1) (by omega)), fun k hk => ?_⟩
      · rwa [(m.sameFrame_after _).source]
      · rw [(m.sameFrame_after _).source, (m.sameFrame_after _).source]
      · rcases Nat.lt_succ_iff_lt_or_eq.1 hk with hlt | rfl
        · exact hbefore k hlt
        · exact hnow
  have hend := (hround n (Nat.le_refl n)).1
  exact ⟨hend.graph, sameState_of_abreast (hfit.after _) hend (hextends (a + n) hab)⟩

/-- **Loops converge**: a machine that stands where it stood before, and goes through the same round
as it did from there, on the same input and with decisions that retrace those of the first round,
adds nothing to its graph, and comes to where the first round led it. -/
theorem rounds_converge {s : Store} {program : String} (hs : s.source.Truthful)
    (hsep : s.source.Separate ∨ s.source.Joint) (hl : s.Laid) (hu : s.Unbound)
    (hload : loadText { store := s, observer := {} } program = (.ok (), m)) {a b n : Nat}
    (hab : a + n ≤ b) (hstate : (m.after a).SameState (m.after b))
    (hrepeats : ∀ j < n, (m.after (a + j)).Repeats (m.after (b + j)))
    (hretraces : ∀ j < n,
      (m.after (a + j)).Retraces (m.after b).observer.graph (m.after (b + j))) :
    (m.after (b + n)).observer.graph = (m.after b).observer.graph ∧
      (m.after (a + n)).SameState (m.after (b + n)) := by
  obtain ⟨hfit, -, -, hsource, -⟩ := fit_of_loadText hs hl hu hload
  exact hfit.abreast_round (by rwa [hsource]) (consed_after hu hload b) hab hstate hrepeats
    fun j hj _ _ => hretraces j hj

/-- A value that is masked over and over in one register, as long as a condition holds. -/
theorem rounds_converge_mask :
    let s : Store :=
      { layout := { registers := ["A", "C"], inputs := 2 }
        operands := #[{ kind := .register pcName }, { kind := .register "A" },
          { kind := .register "C" }, { kind := .input 0 }, { kind := .input 1 }]
        source := .queues [[1], [1]] }
    let program := "STR IN0, , A\nSTR IN1, , C\nAND A, %1, A\nJCC C, , %2"
    let m := (loadText { store := s, observer := ({} : Tracker) } program).2
    (s.source.Truthful ∧ (s.source.Separate ∨ s.source.Joint) ∧ s.Laid ∧ s.Unbound ∧
      loadText { store := s, observer := {} } program = (.ok (), m) ∧ 6 + 2 ≤ 8 ∧
      (m.after 6).SameState (m.after 8) ∧
      (∀ j < 2, (m.after (6 + j)).Repeats (m.after (8 + j))) ∧
      ∀ j < 2, (m.after (6 + j)).Retraces (m.after 8).observer.graph (m.after (8 + j))) ∧
      (m.after (8 + 2)).observer.graph = (m.after 8).observer.graph := by
  intro s program m
  have hs : s.source.Truthful := Source.queues_truthful _
  have hsep : s.source.Separate ∨ s.source.Joint := .inl (Source.queues_separate _)
  have hbuild : ({ registers := ["A", "C"], inputs := 2, source := .queues [[1], [1]] } :
      Config).build = .ok s := rfl
  obtain ⟨hl, hu⟩ := Config.laid_of_build hbuild
  have hload : loadText { store := s, observer := {} } program = (.ok (), m) :=
    Prod.ext (by decide +kernel) rfl
  have hstate : (m.after 6).SameState (m.after 8) := by decide +kernel
  have hround : ∀ j < 2, (m.after (8 + j)).next = (m.after (6 + j)).next ∧
      (m.after (6 + j)).step.1 = .ok true ∧ (m.after (8 + j)).step.1 = .ok true ∧
      consuming (m.after (6 + j)).step.2.store.reads = consuming (m.after (6 + j)).store.reads ∧
      consuming (m.after (8 + j)).step.2.store.reads = consuming (m.after (8 + j)).store.reads := by
    decide +kernel
  have hrepeats : ∀ j < 2, (m.after (6 + j)).Repeats (m.after (8 + j)) := fun j hj =>
    have ⟨hnext, hok, hok', hreads, hreads'⟩ := hround j hj
    ⟨hnext, ⟨true, hok, hok'⟩, [], hreads, hreads'⟩
  have hdecisions :
      (m.after 6).decision =
        .derive 1 (.derived (.right .and 1) [⟨some 1, "A", 6, 1, false⟩]) ∧
      (m.after 8).decision =
        .derive 1 (.derived (.right .and 1) [⟨some 1, "A", 8, 1, false⟩]) ∧
      (m.after 7).decision =
        .branch true ⟨some 0, "PC", 7, 3, false⟩ ⟨some 2, "C", 1, 1, false⟩ ∧
      (m.after 9).decision =
        .branch true ⟨some 0, "PC", 9, 3, false⟩ ⟨some 2, "C", 1, 1, false⟩ := by
    decide +kernel
  obtain ⟨hmask, hmask', hjump, hjump'⟩ := hdecisions
  -- the masked value is carried in its register, and the condition stays at one node
  have hidentities :
      [Link.mk "A" 8].map ((m.after 8).observer.graph.identity "A") =
        [Link.mk "A" 6].map ((m.after 8).observer.graph.identity "A") ∧
      [Link.mk "PC" 9, Link.mk "C" 1].map ((m.after 8).observer.graph.identity "PC") =
        [Link.mk "PC" 7, Link.mk "C" 1].map ((m.after 8).observer.graph.identity "PC") := by
    decide +kernel
  have hnames : ((m.after 6).store.operand 1).name = "A" ∧
      ((m.after 7).store.operand Store.pc).name = "PC" := by
    decide +kernel
  have hretraces : ∀ j < 2,
      (m.after (6 + j)).Retraces (m.after 8).observer.graph (m.after (8 + j)) := by
    intro j hj
    have hcases : j = 0 ∨ j = 1 := by omega
    rcases hcases with rfl | rfl
    · show (m.after 6).decision.Retraces _ _ (m.after 8).decision
      rw [hmask, hmask']
      exact .derived rfl ⟨by simp, by rw [hnames.1]; exact hidentities.1⟩
    · show (m.after 7).decision.Retraces _ _ (m.after 9).decision
      rw [hjump, hjump']
      exact .branch rfl ⟨by simp, by rw [hnames.2]; exact hidentities.2⟩
  have hab : 6 + 2 ≤ 8 := by decide
  exact ⟨⟨hs, hsep, hl, hu, hload, hab, hstate, hrepeats, hretraces⟩,
    (rounds_converge hs hsep hl hu hload hab hstate hrepeats hretraces).1⟩

/-- A round does not always converge: a value that is handed on from one register to another is
derived anew in each round, though the machine stands at the same point behind each. -/
theorem rounds_may_not_converge :
    ¬ ∀ (s : Store) (program : String) (m : Machine Tracker) (a n : Nat), s.source.Truthful →
      s.source.Separate → s.Laid → s.Unbound →
      loadText { store := s, observer := {} } program = (.ok (), m) →
      (∀ i ∈ m.program, i.opcode ≠ .undef) →
      (m.after a).Branches → (m.after (a + n)).Branches →
      (m.after (a + 1)).SameState (m.after (a + 1 + n)) →
      (∀ j < n, (m.after (a + 1 + j)).Repeats (m.after (a + 1 + n + j))) →
      (m.after (a + 1 + n)).SameState (m.after (a + 1 + n + n)) →
      (m.after (a + 1 + n + n)).observer.graph.size =
        (m.after (a + 1 + n)).observer.graph.size := by
  intro hall
  let s : Store :=
    { layout := { registers := ["A", "B", "C"], inputs := 2 }
      operands := #[{ kind := .register pcName }, { kind := .register "A" },
        { kind := .register "B" }, { kind := .register "C" }, { kind := .input 0 },
        { kind := .input 1 }]
      source := .queues [[1], [1]] }
  let program := "STR IN0, , A\nSTR IN1, , C\nAND A, %1, B\nSTR B, , A\nJCC C, , %2"
  let m := (loadText { store := s, observer := ({} : Tracker) } program).2
  have hbuild : ({ registers := ["A", "B", "C"], inputs := 2, source := .queues [[1], [1]] } :
      Config).build = .ok s := rfl
  obtain ⟨hl, hu⟩ := Config.laid_of_build hbuild
  have hround : ∀ j < 3, (m.after (7 + 1 + 3 + j)).next = (m.after (7 + 1 + j)).next ∧
      (m.after (7 + 1 + j)).step.1 = .ok true ∧ (m.after (7 + 1 + 3 + j)).step.1 = .ok true ∧
      consuming (m.after (7 + 1 + j)).step.2.store.reads =
        consuming (m.after (7 + 1 + j)).store.reads ∧
      consuming (m.after (7 + 1 + 3 + j)).step.2.store.reads =
        consuming (m.after (7 + 1 + 3 + j)).store.reads := by
    decide +kernel
  have hbranches :
      (m.after 7).decision =
        .branch true ⟨some 0, "PC", 5, 4, false⟩ ⟨some 3, "C", 1, 1, false⟩ ∧
      (m.after (7 + 3)).decision =
        .branch true ⟨some 0, "PC", 7, 4, false⟩ ⟨some 3, "C", 1, 1, false⟩ := by
    decide +kernel
  -- the machine comes back to where it stood, and the graph grows all the same
  have hstates : (m.after (7 + 1)).SameState (m.after (7 + 1 + 3)) ∧
      (m.after (7 + 1 + 3)).SameState (m.after (7 + 1 + 3 + 3)) ∧
      (m.after (7 + 1 + 3 + 3)).observer.graph.size ≠
        (m.after (7 + 1 + 3)).observer.graph.size := by
    decide +kernel
  refine hstates.2.2 (hall s program m 7 3 (Source.queues_truthful _) (Source.queues_separate _)
    hl hu (Prod.ext (by decide +kernel) rfl) (by decide +kernel) ⟨_, _, _, hbranches.1⟩
    ⟨_, _, _, hbranches.2⟩ hstates.1 (fun j hj => ?_) hstates.2.1)
  obtain ⟨hnext, hok, hok', hreads, hreads'⟩ := hround j hj
  exact ⟨hnext, ⟨true, hok, hok'⟩, [], hreads, hreads'⟩

end Lineage.Machine
