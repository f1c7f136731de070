import Lineage.Proofs.Derivation.Planning
import Lineage.Proofs.Session
import Lineage.Trace

/-!
Observing a machine does not change what it does.

An observer is unobtrusive when it changes nothing of a store but the bound nodes and the history of
peeks. A tracker is, a trace is, and so is a pair of unobtrusive observers. With a source that
ignores peeks no machine can tell whether it is observed by one of them, and each part of a pair
records what it would record alone.
-/

namespace Lineage

variable {ω α β : Type} {s t : Store}

/-- The observer changes the bound nodes of a store and its history of peeks at most. -/
structure Observer.Unobtrusive (ω : Type) [Observer ω] : Prop where
  before : ∀ (o : ω) (s : Store) i, s.Similar (Observer.before o s i).2
  after : ∀ (o : ω) (s : Store) running, s.Similar (Observer.after o s running).2

namespace Observer.Unobtrusive

lemma pair [Observer α] [Observer β] (ha : Unobtrusive α) (hb : Unobtrusive β) :
    Unobtrusive (α × β) where
  before o s i := (ha.before o.1 s i).trans (hb.before o.2 _ i)
  after o s running := (ha.after o.1 s running).trans (hb.after o.2 _ running)

lemma unit : Unobtrusive Unit where
  before _ s _ := .refl s
  after _ s _ := .refl s

lemma trace : Unobtrusive Trace where
  before _ s _ := .refl s
  after _ s _ := .refl s

lemma tracker : Unobtrusive Tracker where
  before t s i := (Tracker.looks_plan i ({ t with pending := none }, s)).store.similar
  after t s running := by
    show s.Similar (t.settle s).2
    unfold Tracker.settle
    split
    · exact .refl s
    · exact s.similar_bind _ _
    · exact s.similar_bind _ _

lemma inStep [Observer ω] (h : Unobtrusive ω) (src : Source) :
    Observer.InStep (SimilarOn src) fun (_ : Unit) (_ : ω) => True where
  fetched _ _ _ _ := trivial
  decoded _ _ := trivial
  before _ hs i := ⟨trivial, hs.1, hs.2.trans (h.before _ _ i)⟩
  after _ hs running := ⟨trivial, hs.1, hs.2.trans (h.after _ _ running)⟩

end Observer.Unobtrusive

namespace Store

/-- A snapshot does not show bound nodes. -/
lemma Similar.snapshot (h : s.Similar t) : t.snapshot = s.snapshot := by
  have hbare : ∀ u : Store, u.snapshot = (u.operands.map Operand.bare).toList.foldl
      (fun d o => if o.kind.isConstant then d else Snapshot.insert o.name o.value d) [] := by
    intro u
    rw [Array.toList_map, List.foldl_map]
    rfl
  rw [hbare, hbare, h.operands]

end Store

namespace Observer

/-- Beside a tracker, a trace goes in step with a trace that is alone. -/
lemma trace_inStep (src : Source) :
    InStep (SimilarOn src) fun (l : Trace) (p : Trace × Tracker) => p.1 = l where
  fetched {l p} hl pc pc' hpc := by
    have hv : pc'.value = pc.value := by
      have hbare := congrArg Operand.value hpc
      exact hbare
    show { p.1 with current := { pc := pc'.value } } = { l with current := { pc := pc.value } }
    rw [hl, hv]
  decoded {l p} hl i := by rw [← hl]; rfl
  before {l p s s'} hl hs i := by
    refine ⟨?_, hs.1, hs.2.trans (Unobtrusive.tracker.before p.2 s' i)⟩
    show { p.1 with current.before := s'.snapshot } = { l with current.before := s.snapshot }
    rw [hl, hs.2.snapshot]
  after {l p s s'} hl hs running := by
    refine ⟨?_, hs.1, hs.2.trans (Unobtrusive.tracker.after p.2 s' running)⟩
    show (after p.1 s' running).1 = (after l s running).1
    rw [hl]
    simp only [after, hs.2.snapshot]

/-- Beside a trace, a tracker goes in step with a tracker that is alone, on the same store. -/
lemma tracker_inStep : InStep Eq fun (t : Tracker) (p : Trace × Tracker) => p.2 = t where
  fetched ht _ _ _ := ht
  decoded ht _ := ht
  before ht hs i := by rw [← ht, hs]; exact ⟨rfl, rfl⟩
  after ht hs running := by rw [← ht, hs]; exact ⟨rfl, rfl⟩

end Observer

/-- The machines have gone through the same run, whoever observes it. -/
structure Machine.SameRun {ω ω' : Type} (m : Machine ω) (m' : Machine ω') : Prop where
  program : m'.program = m.program
  operand : ∀ id, (m'.store.operand id).bare = (m.store.operand id).bare
  pc : m'.store.pcValue = m.store.pcValue
  steps : m'.steps = m.steps
  reads : consuming m'.store.reads = consuming m.store.reads
  emitted : m'.store.emitted = m.store.emitted

lemma Machine.InStep.sameRun {ω ω' : Type} {src : Source} {R : ω → ω' → Prop} {m : Machine ω}
    {m' : Machine ω'} (h : InStep (SimilarOn src) R m m') : m.SameRun m' where
  program := h.program
  operand := h.store.2.operand
  pc := h.store.2.value Store.pc
  steps := h.steps
  reads := h.store.2.consuming
  emitted := h.store.2.emitted

/-- **Observing is transparent**: in every session a machine gives the same answers with a tracker,
with a trace, with both and with no observer, and goes through the same run. The two observers of
the pair record what each records alone. -/
theorem observers_transparent {s : Store} (hs : s.source.IgnoresPeeks) (t : Tracker) (l : Trace)
    (cs : List Call) :
    let plain := ({ store := s, observer := () } : Machine Unit).session cs
    let tracked := ({ store := s, observer := t } : Machine Tracker).session cs
    let traced := ({ store := s, observer := l } : Machine Trace).session cs
    let both := ({ store := s, observer := (l, t) } : Machine (Trace × Tracker)).session cs
    (tracked.1 = plain.1 ∧ plain.2.SameRun tracked.2) ∧
      (traced.1 = plain.1 ∧ plain.2.SameRun traced.2) ∧
      (both.1 = plain.1 ∧ plain.2.SameRun both.2) ∧
      (both.2.store = tracked.2.store ∧ both.2.observer.2 = tracked.2.observer) ∧
      both.2.observer.1 = traced.2.observer := by
  have hsimilar : SimilarOn s.source s s := ⟨rfl, .refl s⟩
  have hS := SimilarOn.congruence hs
  have htracker := Observer.Unobtrusive.tracker
  have htrace := Observer.Unobtrusive.trace
  -- each observer against none
  obtain ⟨htracked, htracked'⟩ := Machine.InStep.session hS (htracker.inStep s.source) cs
    (.start hsimilar () t trivial)
  obtain ⟨htraced, htraced'⟩ := Machine.InStep.session hS (htrace.inStep s.source) cs
    (.start hsimilar () l trivial)
  obtain ⟨hboth, hboth'⟩ := Machine.InStep.session hS ((htrace.pair htracker).inStep s.source) cs
    (.start hsimilar () (l, t) trivial)
  -- the pair against each of its parts
  obtain ⟨-, hpair⟩ := Machine.InStep.session eq_congruence Observer.tracker_inStep cs
    (.start rfl t (l, t) rfl)
  obtain ⟨-, hpair'⟩ := Machine.InStep.session hS (Observer.trace_inStep s.source) cs
    (.start hsimilar l (l, t) rfl)
  exact ⟨⟨htracked, htracked'.sameRun⟩, ⟨htraced, htraced'.sameRun⟩, ⟨hboth, hboth'.sameRun⟩,
    ⟨hpair.store.symm, hpair.observer⟩, hpair'.observer⟩

/-- A jump to where an input channel says, and a division that fails the first time. -/
theorem observers_transparent_queue :
    let s : Store :=
      { layout := { inputs := 1 }
        operands := #[{ kind := .register pcName }, { kind := .input 0 }]
        source := .queues [[0, 0, 1]] }
    let cs : List Call := [.loadText "STR IN0, , PC\nDIV %1, IN0, PC", .step, .runFor 2, .run 3]
    let plain : Machine Unit := { store := s, observer := () }
    let both : Machine (Trace × Tracker) := { store := s, observer := ({}, {}) }
    let division := (plain.session (cs.take 2)).2.next
    s.source.IgnoresPeeks ∧ (both.session cs).1 = (plain.session cs).1 ∧
      (plain.session cs).1[2]? = some (.stepped (.error (.divisionByZero division))) := by
  intro s cs plain both division
  have hs : s.source.IgnoresPeeks := (Source.queues_truthful _).ignoresPeeks
  exact ⟨hs, (observers_transparent hs {} {} cs).2.2.1.1, by decide +kernel⟩

end Lineage
