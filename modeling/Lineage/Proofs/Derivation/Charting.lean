import Lineage.Proofs.Derivation.Leftovers
import Lineage.Proofs.Derivation.Meaning
import Lineage.Proofs.Derivation.Ordering

/-!
What is true of everything that a tracked machine records.

Derivations are compared by the sources that they were recorded with, in their order, and what reads
like a derivation of a jump was recorded with the program counter first. No operand is marked twice.
All of this holds of whatever becomes of a machine that starts with a tracker that has recorded
nothing.
-/

namespace Lineage

variable {g g' : Graph} {t : Tracker} {s s' : Store} {d : Decision} {m : Machine Tracker}
  {target : OperandId}

/-! ### Graphs -/

namespace Graph

@[simp] lemma fst_identity (g : Graph) (name : String) (l : Link) :
    (g.identity name l).1 = l.operand := by
  rcases g.identity_cases name l with h | ⟨-, v, shape, h⟩ <;> rw [h]

/-- What is compared of the sources is known, and a derivation that reads like one of a jump is
compared by the program counter first. -/
structure Charted (g : Graph) : Prop where
  linked : g.Linked
  jumps : ∀ k < g.size, ∀ d taken x y, (g.node k).derivation? = some d →
    d.label = (Operator.jump taken).text → d.identities = [x, y] → x.1 = pcName

namespace Charted

lemma empty : Charted {} := ⟨.empty, fun _ hk => absurd hk (Nat.not_lt_zero _)⟩

lemma grows (h : g.Charted) (hg : g.Grows g') : g'.Charted where
  linked := h.linked.grows hg
  jumps k hk d taken x y hd hlabel hids := by
    rcases Nat.lt_or_ge k g.size with hlt | hge
    · rw [hg.node hlt] at hd
      exact h.jumps k hlt d taken x y hd hlabel hids
    · rw [hg.added hge hk] at hd
      cases hd

lemma derive (h : g.Charted) (context name label : String) (v : Value) {links : List Link}
    (hlinks : ∀ l ∈ links, l.node < g.size) (hjump : ∀ taken l l',
      label = (Operator.jump taken).text → links = [l, l'] → l.operand = pcName) :
    (g.derive context name label links v).2.Charted where
  linked := h.linked.derive context name label v hlinks
  jumps k hk d taken x y hd hlabel hids := by
    rcases g.node_derive_cases context name label links v hk with ⟨hlt, hnode⟩ | ⟨-, hnode⟩
    · rw [hnode] at hd
      exact h.jumps k hlt d taken x y hd hlabel hids
    · rw [hnode] at hd
      cases hd
      obtain ⟨l, ls, rfl, rfl, hls⟩ := List.map_eq_cons_iff.1 hids
      obtain ⟨l', ls', rfl, -, hls'⟩ := List.map_eq_cons_iff.1 hls
      rw [List.map_eq_nil_iff] at hls'
      rw [fst_identity]
      exact hjump taken l l' hlabel (by rw [hls'])

end Charted

end Graph

/-! ### Decisions -/

/-- Of the derivations from two sources, only a branch reads like one of a jump, and its first
source is the program counter. -/
def Decision.TellsJumps : Decision → Prop
  | .derive _ (.derived op rs) => ∀ taken x y, rs = [x, y] → op.text ≠ (Operator.jump taken).text
  | .branch _ pc _ => pc.name = pcName
  | .nothing | .derive _ (.source _) | .derive _ (.constant _) | .derive _ .nothing => True

lemma tellsJumps_ofBinary (op : BinaryOp) (x y : Reading) :
    (Decision.derive target (.ofBinary op x y)).TellsJumps := by
  have hfolds := Outcome.folds op x y
  generalize Outcome.ofBinary op x y = o at hfolds
  cases hfolds with
  | linked =>
    intro taken _ _ _ htext
    cases Operator.eq_of_text htext rfl
  | linkedRight | linkedLeft =>
    intro taken _ _ hrs
    cases hrs
  | folded | undefined | same | cancelled | neutralLeft | absorbedLeft | neutralRight
    | absorbedRight => trivial

lemma Store.Laid.name_pc (h : s.Laid) : (s.operand pc).name = pcName := by
  rw [Operand.name, h.kind_pc.2, Kind.name]

lemma Planned.tellsJumps {i : Instruction} {e : Effect} (h : Planned i t s g d e) (hl : s.Laid) :
    d.TellsJumps := by
  cases h with
  | binary => exact tellsJumps_ofBinary ..
  | bisz =>
    unfold Outcome.ofTest
    split
    · trivial
    · intro taken _ _ hrs
      cases hrs
  | undef =>
    intro taken _ _ hrs
    cases hrs
  | branch _ _ hpc => exact hpc.name.trans hl.name_pc
  | ldm | stm | stmAstray | str | known | nop | unkn => trivial

namespace Graph

lemma Charted.records (h : g.Charted) (hr : Records d g s g' s')
    (hreadings : ∀ r ∈ d.readings, r.node < g.size) (hd : d.TellsJumps) : g'.Charted := by
  cases hr with
  | nothing | void | source => exact h
  | constant => exact h.grows (g.constant_grows _)
  | derived context hr =>
    rw [hr]
    refine h.derive _ _ _ _ (fun l hl => ?_) fun taken l l' htext hlinks => ?_
    · obtain ⟨r, hr, rfl⟩ := List.mem_map.1 hl
      exact hreadings r hr
    · obtain ⟨x, rs, rfl, -, hrs⟩ := List.map_eq_cons_iff.1 hlinks
      obtain ⟨y, rs', rfl, -, hrs'⟩ := List.map_eq_cons_iff.1 hrs
      rw [List.map_eq_nil_iff] at hrs'
      exact absurd htext (hd taken x y (by rw [hrs']))
  | copy _ context hr =>
    rw [hr]
    refine h.derive _ _ _ _ (fun l hl => ?_) fun _ _ _ _ hlinks => by cases hlinks
    rw [List.mem_singleton.1 hl]
    exact hreadings _ (by simp [Decision.readings])
  | copyConstant _ context hnode hr =>
    rw [hr]
    refine (h.grows (g.constant_grows _)).derive _ _ _ _ (fun l hl => ?_)
      fun _ _ _ _ hlinks => by cases hlinks
    rw [List.mem_singleton.1 hl, hnode]
    exact g.constant_lt _
  | branch context hr =>
    rw [hr]
    refine h.derive _ _ _ _ (fun l hl => ?_) fun _ l l' _ hlinks => ?_
    · simp only [List.mem_cons, List.not_mem_nil, or_false] at hl
      rcases hl with rfl | rfl
      · exact hreadings _ (by simp [Decision.readings])
      · exact hreadings _ (by simp [Decision.readings])
    · cases hlinks
      exact hd

end Graph

/-! ### Marks -/

namespace Tracker

lemma nodup_mark (h : t.marked.Nodup) (s : Store) (id : OperandId) :
    (t.mark s id).marked.Nodup := by
  unfold mark
  split
  · exact h
  · exact h.insert

lemma nodup_markAll (h : t.marked.Nodup) (s : Store) (rs : List Reading) (target : OperandId) :
    (t.markAll s rs target).marked.Nodup := by
  have hfold : (rs.foldl (fun t r => t.markSource s r) t).marked.Nodup := by
    induction rs generalizing t with
    | nil => exact h
    | cons r rs ih =>
      refine ih ?_
      show (t.markSource s r).marked.Nodup
      unfold markSource
      cases r.operand with
      | none => exact h
      | some id => exact nodup_mark h s id
  exact nodup_mark hfold s target

lemma nodup_adopt (h : t.marked.Nodup) (s : Store) (d : Decision) : (t.adopt s d).marked.Nodup := by
  have hsource : ∀ {t : Tracker} (target r), t.marked.Nodup →
      (t.pendSource s target r).marked.Nodup := by
    intro t target r h
    by_cases ho : s.IsOutput target
    · rw [pendSource_of_output ho]
      exact nodup_markAll h ..
    · rw [pendSource_of_not_output ho]
      exact nodup_markAll h ..
  cases d with
  | nothing => exact h
  | derive target o =>
    cases o with
    | source r => exact hsource target r h
    | constant v => exact hsource target _ h
    | derived op rs => exact nodup_markAll h ..
    | nothing => exact h
  | branch => exact List.nodup_nil

end Tracker

/-! ### Machines -/

namespace Machine

lemma nodup_step (h : m.observer.marked.Nodup) : m.step.2.observer.marked.Nodup := by
  rw [marked_step]
  refine Tracker.nodup_adopt ?_ ..
  rw [m.planned_looked.tracker]
  exact h

/-- A branch tells of what has been marked before and of what it is about itself, once each. -/
lemma context_of_branch {taken : Bool} {p x : Reading} (h : m.observer.marked.Nodup)
    (hd : m.decision = .branch taken p x) :
    ∃ marked, m.step.2.observer.context = Tracker.tag m.planned.2.1.graph m.store taken marked ∧
      marked.Nodup ∧ ∀ id, id ∈ marked ↔ id ∈ m.observer.marked ∨
        (m.store.operand id).kind.isConstant = false ∧ id ∈ m.decision.marks := by
  have hstore : m.store.Peeked m.planned.2.2 := m.planned_looked.store
  have hmarked : m.planned.2.1.marked = m.observer.marked := by rw [m.planned_looked.tracker]
  refine ⟨(m.planned.2.1.markAll m.planned.2.2 [p, x] Store.pc).marked, ?_,
    Tracker.nodup_markAll (hmarked ▸ h) .., fun id => ?_⟩
  · have hgraph : (m.planned.2.1.pendDerived m.planned.2.2 Store.pc (.jump taken) [p, x]).graph =
        m.planned.2.1.graph := Tracker.graph_markAll ..
    rw [context_step, adopted, hd, ← Tracker.tag_peeked hstore, ← hgraph]
    rfl
  · rw [Tracker.mem_markAll, hmarked, hstore.operand, hd]
    rfl

/-- What holds of a tracked machine and of all that it has recorded. -/
structure Charted (m : Machine Tracker) : Prop extends m.Fit where
  charted : m.observer.graph.Charted
  nodup : m.observer.marked.Nodup

namespace Charted

lemma start (hs : s.source.Truthful) (hl : s.Laid) (hu : s.Unbound) :
    Charted { store := s, observer := {} } :=
  ⟨⟨hs, hl, .of_unbound hu⟩, .empty, List.nodup_nil⟩

lemma loadText (h : m.Charted) (program : String) : (m.loadText program).2.Charted := by
  have hinterned : ∀ {u : Store}, m.store.Interned u → Fits m.observer.graph u := fun hi =>
    h.fits.congr (fun id n hn => by rw [hi.operand_eq (Store.lt_of_node hn)]) hi.node_eq
  unfold Machine.loadText
  cases hd : decode program m.store with
  | ok is u =>
    have hi : m.store.Interned u := (keeps_decode .interned program).ok hd
    exact ⟨⟨hi.source ▸ h.truthful, hi.laid h.laid, hinterned hi⟩, h.charted, h.nodup⟩
  | error e u =>
    have hi : m.store.Interned u := (keeps_decode .interned program).error hd
    exact ⟨⟨hi.source ▸ h.truthful, hi.laid h.laid, hinterned hi⟩, h.charted, h.nodup⟩

lemma write (h : m.Charted) {id : OperandId} {v : Value} {u : Store}
    (hw : m.store.write id v = .ok u) : Charted { m with store := u } := by
  obtain ⟨-, -, hsource, -, -, w, hop⟩ := Store.write_ok hw
  have hframe := Store.write_sameFrame hw
  refine ⟨⟨hsource ▸ h.truthful, hframe.laid h.laid, h.fits.congr (fun j _ _ => hframe.kind j) ?_⟩,
    h.charted, h.nodup⟩
  intro j
  rw [hop]
  split <;> rfl

lemma nodeOf (h : m.Charted) (id : OperandId) : (m.nodeOf id).2.Charted := by
  obtain ⟨g, hgrows, hobserver⟩ := m.observer_nodeOf id
  refine ⟨⟨h.truthful, h.laid, ?_⟩, ?_, ?_⟩ <;> rw [hobserver]
  · exact h.fits.grow hgrows
  · exact h.charted.grows hgrows
  · exact h.nodup

lemma step (h : m.Charted) : m.step.2.Charted where
  toFit := h.tracked.fit h.toFit
  charted := by
    have htracked := h.tracked
    generalize m.step.1 = r at htracked
    generalize m.step.2 = m' at htracked ⊢
    cases htracked with
    | fault f _ _ hg => exact h.charted.grows hg
    | done hdone =>
      obtain ⟨u, v, -, -, hr⟩ := hdone.effect
      refine (h.charted.grows hdone.grows).records hr (fun r hr => ?_)
        (hdone.planned.tellsJumps h.laid)
      obtain ⟨id, hof⟩ := hdone.planned.readings_of hr
      exact hof.lt
  nodup := nodup_step h.nodup

end Charted

lemma Becomes.charted {ms : List (Machine Tracker)} (h : Becomes s m ms)
    (hs : s.source.Truthful) (hl : s.Laid) (hu : s.Unbound) : m.Charted := by
  induction h with
  | start => exact .start hs hl hu
  | loadText program _ ih => exact ih.loadText program
  | write _ hw ih => exact ih.write hw
  | nodeOf id _ ih => exact ih.nodeOf id
  | step _ _ ih | branch _ _ ih => exact ih.step

end Machine

end Lineage
