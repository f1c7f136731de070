import Lineage.Proofs.Derivation.Course

/-!
How a tracker records what it has decided.

`Records` sums up what a decision that has been adopted does to the graph and the bindings once it
is settled, one case for each kind of outcome. An output channel never takes over a node: what it is
given is a derivation of its own. `Tracked` is the step of a tracked machine in these terms.
-/

namespace Lineage

variable {t t' : Tracker} {g g' : Graph} {s s' u : Store} {d : Decision} {target : OperandId}

def Reading.link (r : Reading) : Link := ⟨r.name, r.node⟩

namespace Decision

/-- The readings that a decision rests on. -/
def readings : Decision → List Reading
  | .derive _ (.source r) => [r]
  | .derive _ (.derived _ rs) => rs
  | .branch _ pc x => [pc, x]
  | .derive _ (.constant _) | .derive _ .nothing | .nothing => []

/-- The operand that a decision gives a node to. -/
def target? : Decision → Option OperandId
  | .derive target _ => some target
  | .branch _ _ _ => some Store.pc
  | .nothing => none

end Decision

/-- What a decision does to a graph and a store, whose operands have their new values. -/
inductive Records : Decision → Graph → Store → Graph → Store → Prop
  | nothing {g : Graph} {s : Store} : Records .nothing g s g s
  | void {target : OperandId} {g : Graph} {s : Store} : Records (.derive target .nothing) g s g s
  | source {target : OperandId} {r : Reading} {g : Graph} {s : Store}
      (keeps : ¬ s.IsOutput target) :
      Records (.derive target (.source r)) g s g (s.bind target r.node)
  | constant {target : OperandId} {v : Value} {g : Graph} {s : Store}
      (keeps : ¬ s.IsOutput target) :
      Records (.derive target (.constant v)) g s (g.constant v).2
        (s.bind target (g.constant v).1)
  | derived {target : OperandId} {op : Operator} {rs : List Reading} {g : Graph} {s : Store}
      (context : String) {r : NodeId × Graph}
      (derive : r = g.derive context (s.operand target).name op.text (rs.map Reading.link)
        (s.operand target).recorded) :
      Records (.derive target (.derived op rs)) g s r.2 (s.bind target r.1)
  | copy {target : OperandId} {x : Reading} {g : Graph} {s : Store} (leaves : s.IsOutput target)
      (context : String) {r : NodeId × Graph}
      (derive : r = g.derive context (s.operand target).name Operator.copy.text [x.link]
        (s.operand target).recorded) :
      Records (.derive target (.source x)) g s r.2 (s.bind target r.1)
  | copyConstant {target : OperandId} {v : Value} {g : Graph} {s : Store}
      (leaves : s.IsOutput target) (context : String) {l : Link}
      (node : l.node = (g.constant v).1) {r : NodeId × Graph}
      (derive : r = (g.constant v).2.derive context (s.operand target).name
        Operator.copy.text [l] (s.operand target).recorded) :
      Records (.derive target (.constant v)) g s r.2 (s.bind target r.1)
  | branch {taken : Bool} {pc x : Reading} {g : Graph} {s : Store} (context : String)
      {r : NodeId × Graph}
      (derive : r = g.derive context (s.operand Store.pc).name (Operator.jump taken).text
        [pc.link, x.link] (s.operand Store.pc).recorded) :
      Records (.branch taken pc x) g s r.2 (s.bind Store.pc r.1)

namespace Tracker

lemma mark_eq (t : Tracker) (s : Store) (id : OperandId) :
    t.mark s id = { t with marked := (t.mark s id).marked } := by
  unfold mark
  split <;> rfl

lemma markSource_eq (t : Tracker) (s : Store) (r : Reading) :
    t.markSource s r = { t with marked := (t.markSource s r).marked } := by
  unfold markSource
  cases r.operand with
  | some id => exact mark_eq t s id
  | none => rfl

/-- Marking operands changes nothing else. -/
lemma markAll_eq (t : Tracker) (s : Store) (rs : List Reading) (target : OperandId) :
    t.markAll s rs target = { t with marked := (t.markAll s rs target).marked } := by
  have hfold : ∀ (rs : List Reading) (t : Tracker), rs.foldl (fun t r => t.markSource s r) t =
      { t with marked := (rs.foldl (fun t r => t.markSource s r) t).marked } := by
    intro rs
    induction rs with
    | nil => exact fun _ => rfl
    | cons r rs ih =>
      intro t
      rw [List.foldl_cons, ih, markSource_eq]
  rw [markAll, mark_eq, hfold]

@[simp] lemma graph_markAll (t : Tracker) (s : Store) (rs : List Reading) (target : OperandId) :
    (t.markAll s rs target).graph = t.graph := by rw [markAll_eq]

@[simp] lemma context_markAll (t : Tracker) (s : Store) (rs : List Reading) (target : OperandId) :
    (t.markAll s rs target).context = t.context := by rw [markAll_eq]

/-- What is marked depends on the kinds of the operands alone. -/
lemma marked_markAll (hk : ∀ id, (s'.operand id).kind = (s.operand id).kind)
    (hm : t'.marked = t.marked) {rs rs' : List Reading}
    (hrs : rs'.map Reading.operand = rs.map Reading.operand) :
    (t'.markAll s' rs' target).marked = (t.markAll s rs target).marked := by
  have hmark : ∀ {t t' : Tracker} (id : OperandId), t'.marked = t.marked →
      (t'.mark s' id).marked = (t.mark s id).marked := by
    intro t t' id h
    unfold mark
    rw [hk]
    split
    · exact h
    · show t'.marked.insert id = t.marked.insert id
      rw [h]
  have hsource : ∀ {t t' : Tracker} {r r' : Reading}, r'.operand = r.operand →
      t'.marked = t.marked → (t'.markSource s' r').marked = (t.markSource s r).marked := by
    intro t t' r r' hr h
    unfold markSource
    rw [hr]
    cases r.operand with
    | some id => exact hmark id h
    | none => exact h
  have hfold : (rs'.foldl (fun t r => t.markSource s' r) t').marked =
      (rs.foldl (fun t r => t.markSource s r) t).marked := by
    induction rs generalizing rs' t t' with
    | nil =>
      rw [List.map_nil, List.map_eq_nil_iff] at hrs
      rw [hrs]
      exact hm
    | cons r rs ih =>
      obtain ⟨r', rs', rfl, hr, hrs⟩ := List.map_eq_cons_iff.1 hrs
      exact ih (hsource hr hm) hrs
  exact hmark target hfold

lemma settle_pendDerived (t : Tracker) (s : Store) (target : OperandId) (op : Operator)
    (rs : List Reading) (u : Store) :
    let r := t.graph.derive t.context (u.operand target).name op.text (rs.map Reading.link)
      (u.operand target).recorded
    ((t.pendDerived s target op rs).settle u).1.graph = r.2 ∧
      ((t.pendDerived s target op rs).settle u).2 = u.bind target r.1 := by
  simp only [settle, pendDerived, graph_markAll]
  exact ⟨rfl, rfl⟩

lemma pendSource_of_output (h : s.IsOutput target) (t : Tracker) (r : Reading) :
    t.pendSource s target r = t.pendDerived s target .copy [r] := by
  obtain ⟨c, hc⟩ := h
  simp only [pendSource, hc]

lemma pendSource_of_not_output (h : ¬ s.IsOutput target) (t : Tracker) (r : Reading) :
    t.pendSource s target r =
      { t.markAll s [r] target with pending := some (.existing target r.node) } := by
  unfold pendSource
  split
  · next c hc => exact absurd ⟨c, hc⟩ h
  · rfl

lemma graph_pendSource (t : Tracker) (s : Store) (target : OperandId) (r : Reading) :
    (t.pendSource s target r).graph = t.graph := by
  by_cases h : s.IsOutput target
  · rw [pendSource_of_output h]
    exact graph_markAll ..
  · rw [pendSource_of_not_output h]
    exact graph_markAll ..

lemma pendConstant_eq (t : Tracker) (s : Store) (target : OperandId) (v : Value) :
    ∃ name, t.pendConstant s target v = { t with graph := (t.graph.constant v).2 }.pendSource s
      target ⟨none, name, (t.graph.constant v).1, v, true⟩ := ⟨_, rfl⟩

lemma settle_branch (t : Tracker) (s : Store) (taken : Bool) (u : Store) :
    ((t.branch s taken).settle u).1.graph = (t.settle u).1.graph ∧
      ((t.branch s taken).settle u).2 = (t.settle u).2 := by
  cases h : t.pending with
  | none => simp only [settle, branch, h, and_self]
  | some p => cases p <;> simp only [settle, branch, h, and_self]

lemma graph_adopt_grows (t : Tracker) (s : Store) (d : Decision) :
    t.graph.Grows (t.adopt s d).graph := by
  unfold adopt
  split
  · exact .refl _
  · rw [graph_pendSource]
    exact .refl _
  · rw [pendConstant, graph_pendSource]
    exact t.graph.constant_grows _
  · rw [pendDerived, graph_markAll]
    exact .refl _
  · exact .refl _
  · rw [branch, pendDerived, graph_markAll]
    exact .refl _

lemma context_pendSource (t : Tracker) (s : Store) (target : OperandId) (r : Reading) :
    (t.pendSource s target r).context = t.context := by
  by_cases h : s.IsOutput target
  · rw [pendSource_of_output h]
    exact context_markAll ..
  · rw [pendSource_of_not_output h]
    exact context_markAll ..

lemma context_adopt (t : Tracker) (s : Store) {d : Decision}
    (hd : ∀ taken pc x, d ≠ .branch taken pc x) : (t.adopt s d).context = t.context := by
  cases d with
  | nothing => rfl
  | derive target o =>
    cases o with
    | source | constant => exact context_pendSource ..
    | derived => exact context_markAll ..
    | nothing => rfl
  | branch taken pc x => exact absurd rfl (hd taken pc x)

/-- A decision that is adopted and settled does what `Records` says. -/
lemma records_settle (hp : t.pending = none) (s : Store) (d : Decision)
    (hk : ∀ id, (u.operand id).kind = (s.operand id).kind) :
    Records d t.graph u ((t.adopt s d).settle u).1.graph ((t.adopt s d).settle u).2 := by
  have hout : ∀ {id}, s.IsOutput id ↔ u.IsOutput id := by
    intro id
    simp only [Store.IsOutput, hk]
  have hnothing : t.settle u = (t, u) := by simp only [settle, hp]
  cases d with
  | nothing =>
    rw [adopt, hnothing]
    exact .nothing
  | derive target o =>
    cases o with
    | source r =>
      rw [adopt]
      by_cases h : s.IsOutput target
      · -- an output channel gets a derivation of its own
        rw [pendSource_of_output h]
        obtain ⟨hg, hu⟩ := settle_pendDerived t s target .copy [r] u
        rw [hg, hu]
        exact .copy (hout.1 h) _ rfl
      · rw [pendSource_of_not_output h]
        simp only [settle, graph_markAll]
        exact .source (mt hout.2 h)
    | constant v =>
      obtain ⟨name, hname⟩ := pendConstant_eq t s target v
      rw [adopt, hname]
      by_cases h : s.IsOutput target
      · rw [pendSource_of_output h]
        obtain ⟨hg, hu⟩ := settle_pendDerived { t with graph := (t.graph.constant v).2 } s target
          .copy [⟨none, name, (t.graph.constant v).1, v, true⟩] u
        rw [hg, hu]
        exact .copyConstant (hout.1 h) _ rfl rfl
      · rw [pendSource_of_not_output h]
        simp only [settle, graph_markAll]
        exact .constant (mt hout.2 h)
    | derived op rs =>
      obtain ⟨hg, hu⟩ := settle_pendDerived t s target op rs u
      rw [adopt, hg, hu]
      exact .derived _ rfl
    | nothing =>
      rw [adopt, hnothing]
      exact .void
  | branch taken pc x =>
    obtain ⟨hg, hu⟩ := settle_pendDerived t s Store.pc (.jump taken) [pc, x] u
    rw [adopt, (settle_branch _ s taken u).1, (settle_branch _ s taken u).2, hg, hu]
    exact .branch _ rfl

end Tracker

namespace Records

lemma store (h : Records d g s g' s') :
    s' = s ∨ ∃ target n, d.target? = some target ∧ s' = s.bind target n := by
  cases h with
  | nothing | void => exact .inl rfl
  | source | constant | derived | copy | copyConstant | branch => exact .inr ⟨_, _, rfl, rfl⟩

lemma graph (h : Records d g s g' s') : g.Extends g' := by
  cases h with
  | nothing | void | source => exact .refl g
  | constant => exact (g.constant_grows _).toExtends
  | derived _ hr | copy _ _ hr | branch _ hr => rw [hr]; exact g.derive_extends ..
  | copyConstant _ _ _ hr =>
    rw [hr]
    exact (g.constant_grows _).toExtends.trans (Graph.derive_extends ..)

lemma layout (h : Records d g s g' s') : s'.layout = s.layout ∧ s'.source = s.source ∧
    s'.operands.size = s.operands.size := by
  rcases h.store with rfl | ⟨target, n, -, rfl⟩
  · exact ⟨rfl, rfl, rfl⟩
  · exact ⟨rfl, rfl, Store.size_modify ..⟩

lemma kind (h : Records d g s g' s') (id : OperandId) :
    (s'.operand id).kind = (s.operand id).kind := by
  rcases h.store with rfl | ⟨target, n, -, rfl⟩
  · rfl
  · exact s.kind_bind ..

lemma value (h : Records d g s g' s') (id : OperandId) :
    (s'.operand id).value = (s.operand id).value := by
  rcases h.store with rfl | ⟨target, n, -, rfl⟩
  · rfl
  · exact s.value_bind ..

lemma other (h : Records d g s g' s') {id : OperandId} (hid : d.target? ≠ some id) :
    s'.operand id = s.operand id := by
  rcases h.store with rfl | ⟨target, n, ht, rfl⟩
  · rfl
  · refine s.operand_bind_of_ne n fun heq => hid ?_
    rw [ht, heq]

lemma node_source {r : Reading} (h : Records (.derive target (.source r)) g s g' s')
    (hlt : target < s.operands.size) (ho : ¬ s.IsOutput target) :
    g' = g ∧ (s'.operand target).node = some r.node := by
  cases h with
  | source => exact ⟨rfl, s.node_bind_self _ hlt⟩
  | copy hout => exact absurd hout ho

lemma node_constant {v : Value} (h : Records (.derive target (.constant v)) g s g' s')
    (hlt : target < s.operands.size) (ho : ¬ s.IsOutput target) :
    g' = (g.constant v).2 ∧ (s'.operand target).node = some (g.constant v).1 := by
  cases h with
  | constant => exact ⟨rfl, s.node_bind_self _ hlt⟩
  | copyConstant hout => exact absurd hout ho

lemma node_derived {op : Operator} {rs : List Reading}
    (h : Records (.derive target (.derived op rs)) g s g' s') (hlt : target < s.operands.size) :
    ∃ context, g' = (g.derive context (s.operand target).name op.text (rs.map Reading.link)
        (s.operand target).recorded).2 ∧
      (s'.operand target).node = some (g.derive context (s.operand target).name op.text
        (rs.map Reading.link) (s.operand target).recorded).1 := by
  cases h with
  | derived context hr =>
    subst hr
    exact ⟨context, rfl, s.node_bind_self _ hlt⟩

/-- A derivation that is added is called after the target. It leaves through an output channel, or
it is that of a jump, or it is the one decided on. -/
lemma added (h : Records d g s g' s') {n : NodeId} {dv : Derivation} (hge : g.size ≤ n)
    (hlt : n < g'.size) (hdv : (g'.node n).derivation? = some dv) :
    ∃ target, d.target? = some target ∧ (g'.node n).name = (s.operand target).name ∧
      (s.IsOutput target ∨ target = Store.pc ∨
        ∃ op rs, d = .derive target (.derived op rs) ∧ dv.label = op.text ∧
          dv.sources = rs.map Reading.node ∧ (g'.node n).value = (s.operand target).recorded) := by
  -- the derivation that is added behind what has been looked up
  have hderive : ∀ {g₁ : Graph} {context name label : String} {links : List Link} {v : Value},
      g.Grows g₁ → g' = (g₁.derive context name label links v).2 →
      g'.node n = g₁.derived context name label links v := by
    intro g₁ context name label links v hg he
    rw [he] at hlt hdv ⊢
    rcases g₁.node_derive_cases context name label links v hlt with ⟨hlt', hnode⟩ | ⟨-, hnode⟩
    · rw [hnode, hg.added hge hlt'] at hdv
      cases hdv
    · exact hnode
  cases h with
  | nothing | void | source => exact absurd hlt (Nat.not_lt.2 hge)
  | constant =>
    rw [(g.constant_grows _).added hge hlt] at hdv
    cases hdv
  | @derived target op rs _ _ context _ hr =>
    have hnode := hderive (.refl g) (by rw [hr])
    rw [hnode] at hdv
    cases hdv
    rw [hnode]
    exact ⟨target, rfl, rfl, .inr (.inr ⟨op, rs, rfl, rfl, List.map_map, rfl⟩)⟩
  | copy hout context hr =>
    rw [hderive (.refl g) (by rw [hr])]
    exact ⟨_, rfl, rfl, .inl hout⟩
  | copyConstant hout context _ hr =>
    rw [hderive (g.constant_grows _) (by rw [hr])]
    exact ⟨_, rfl, rfl, .inl hout⟩
  | branch context hr =>
    rw [hderive (.refl g) (by rw [hr])]
    exact ⟨_, rfl, rfl, .inr (.inl rfl)⟩

end Records

/-! ### Steps -/

/-- The second machine is the first after a step with this decision and this effect. -/
structure Done (m m' : Machine Tracker) (g : Graph) (d : Decision) (e : Effect) : Prop where
  program : m'.program = m.program
  grows : m.observer.graph.Grows g
  planned : Planned m.next { m.observer with pending := none } m.store g d e
  effect : ∃ u v, m.store.Steady u ∧ u.Follows e v ∧
    Records d g v m'.observer.graph m'.store

/-- What a step of a tracked machine does. A step that faults has done nothing but reading and
looking. -/
inductive Tracked (m m' : Machine Tracker) : Except Fault Bool → Prop
  | fault (f : Fault) (program : m'.program = m.program) (store : m.store.Steady m'.store)
      (graph : m.observer.graph.Grows m'.observer.graph) : Tracked m m' (.error f)
  | done {g : Graph} {d : Decision} {e : Effect} (h : Done m m' g d e) :
      Tracked m m' (.ok (e ≠ .halt))

lemma Tracked.done_of_ok {m m' : Machine Tracker} {running : Bool}
    (h : Tracked m m' (.ok running)) : ∃ g d e, Done m m' g d e ∧ running = decide (e ≠ .halt) := by
  generalize hr : (Except.ok running : Except Fault Bool) = r at h
  cases h with
  | fault => cases hr
  | done h => exact ⟨_, _, _, h, Except.ok.inj hr⟩

section Step

variable {m : Machine Tracker} (hs : m.store.source.Truthful) (hl : m.store.Laid)
  (hb : m.store.BoundIn m.observer.graph)
include hs hl hb

lemma done_of_reads {e : Effect} {u v : Store} {flow : Flow}
    (hreads : m.next.Reads m.planned.2.2 e u) (hperf : Instruction.perform e u = .ok flow v) :
    Done m { m with
      store := (m.adopted.settle (Machine.advance v flow)).2
      observer := (m.adopted.settle (Machine.advance v flow)).1
      steps := m.steps + 1 } m.planned.2.1.graph m.decision e := by
  have hlooked := m.planned_looked
  have hpending : m.planned.2.1.pending = none := congrArg Tracker.pending hlooked.tracker
  have hfollows := (Instruction.follows_of_perform hperf).1
  have hplanned := planned_of_reads hs hl hb hlooked.store hreads
    (t := { m.observer with pending := none })
  have hkind : ∀ id, ((Machine.advance v flow).operand id).kind =
      (m.planned.2.2.operand id).kind := fun id =>
    (hfollows.kind id).trans (hreads.steady.kind id)
  exact ⟨rfl, hlooked.graph, hplanned, u, _, hlooked.store.steady.trans hreads.steady, hfollows,
    Tracker.records_settle hpending _ _ hkind⟩

lemma step_tracked : Tracked m m.step.2 m.step.1 := by
  have hlooked := m.planned_looked
  have hcourse := m.step_course
  generalize m.step.1 = r at hcourse ⊢
  generalize m.step.2 = m' at hcourse ⊢
  cases hcourse with
  | @fault f u hst =>
    exact .fault f rfl (hlooked.store.steady.trans hst)
      (Graph.Grows.trans hlooked.graph (Tracker.graph_adopt_grows ..))
  | done hreads hperf => exact .done (done_of_reads hs hl hb hreads hperf)

end Step

namespace Done

variable {m m' : Machine Tracker} {e : Effect} {id : OperandId} {v : Value} {o : Outcome}

lemma graph (h : Done m m' g d e) : g.Extends m'.observer.graph := by
  obtain ⟨u, v, -, -, hr⟩ := h.effect
  exact hr.graph

lemma node_eq (h : Done m m' g d e) {n : NodeId} (hn : n < m.observer.graph.size) :
    m'.observer.graph.node n = m.observer.graph.node n :=
  (h.grows.toExtends.trans h.graph).node hn

lemma kind (h : Done m m' g d e) (id : OperandId) :
    (m'.store.operand id).kind = (m.store.operand id).kind := by
  obtain ⟨u, v, hs, hf, hr⟩ := h.effect
  rw [hr.kind, hf.kind, hs.kind]

lemma size (h : Done m m' g d e) : m'.store.operands.size = m.store.operands.size := by
  obtain ⟨u, v, hs, hf, hr⟩ := h.effect
  rw [hr.layout.2.2, hf.size, hs.size]

lemma isStorage (h : Done m m' g d e) : m'.store.IsStorage id ↔ m.store.IsStorage id := by
  simp only [Store.IsStorage, h.kind, h.size]

lemma other (h : Done m m' g d e) (hpc : id ≠ Store.pc) (hin : ¬ m.store.IsInput id)
    (he : ∀ v, e ≠ .write id v) (hd : d.target? ≠ some id) :
    m'.store.operand id = m.store.operand id := by
  obtain ⟨u, v, hs, hf, hr⟩ := h.effect
  rw [hr.other hd, hf.other hpc he, hs.other hin]

lemma value_other (h : Done m m' g d e) (hpc : id ≠ Store.pc) (hin : ¬ m.store.IsInput id)
    (he : ∀ v, e ≠ .write id v) : (m'.store.operand id).value = (m.store.operand id).value := by
  obtain ⟨u, v, hs, hf, hr⟩ := h.effect
  rw [hr.value, hf.other hpc he, hs.other hin]

lemma value_target (h : Done m m' g d (.write id v)) (hpc : id ≠ Store.pc)
    (hlt : id < m.store.operands.size) : (m'.store.operand id).value = v := by
  obtain ⟨u, w, hs, hf, hr⟩ := h.effect
  rw [hr.value, hf.target rfl hpc (hs.size ▸ hlt)]

lemma node_other (h : Done m m' g d e) (hin : ¬ m.store.IsInput id) (hd : d.target? ≠ some id) :
    (m'.store.operand id).node = (m.store.operand id).node := by
  obtain ⟨u, v, hs, hf, hr⟩ := h.effect
  rw [hr.other hd, hf.node, hs.other hin]

/-- The nodes that a storage operand is given: that of a source, -/
lemma node_source {r : Reading} (h : Done m m' g (.derive id (.source r)) e)
    (hst : m.store.IsStorage id) :
    m'.observer.graph = g ∧ (m'.store.operand id).node = some r.node := by
  obtain ⟨u, v, hs, hf, hr⟩ := h.effect
  refine hr.node_source (by rw [hf.size, hs.size]; exact hst.2.1) ?_
  rw [Store.IsOutput, hf.kind, hs.kind]
  exact hst.not_output

/-- that of a constant, -/
lemma node_constant (h : Done m m' g (.derive id (.constant v)) e) (hst : m.store.IsStorage id) :
    m'.observer.graph = (g.constant v).2 ∧
      (m'.store.operand id).node = some (g.constant v).1 := by
  obtain ⟨u, w, hs, hf, hr⟩ := h.effect
  refine hr.node_constant (by rw [hf.size, hs.size]; exact hst.2.1) ?_
  rw [Store.IsOutput, hf.kind, hs.kind]
  exact hst.not_output

/-- and a derivation with the value it has after the step. -/
lemma node_derived {op : Operator} {rs : List Reading}
    (h : Done m m' g (.derive id (.derived op rs)) e) (hst : m.store.IsStorage id) :
    ∃ context, m'.observer.graph = (g.derive context (m.store.operand id).name op.text
        (rs.map Reading.link) (m'.store.operand id).value).2 ∧
      (m'.store.operand id).node = some (g.derive context (m.store.operand id).name op.text
        (rs.map Reading.link) (m'.store.operand id).value).1 := by
  obtain ⟨u, w, hs, hf, hr⟩ := h.effect
  have hkind : (w.operand id).kind = (m.store.operand id).kind := by rw [hf.kind, hs.kind]
  have hname : (w.operand id).name = (m.store.operand id).name := by
    rw [Operand.name, hkind, Operand.name]
  have hrecorded : (w.operand id).recorded = (m'.store.operand id).value := by
    have hst' := hst.2.2
    rw [← hkind] at hst'
    rw [hr.value, Operand.recorded]
    cases hk : (w.operand id).kind with
    | output c => rw [hk] at hst'; cases hst'
    | _ => rfl
  rw [← hname, ← hrecorded]
  exact hr.node_derived (by rw [hf.size, hs.size]; exact hst.2.1)

/-- An output channel is given a node that is no constant. -/
lemma node_output (h : Done m m' g (.derive id o) e) (ho : o ≠ .nothing)
    (hlt : id < m.store.operands.size) (hout : m.store.IsOutput id) :
    ∃ n, (m'.store.operand id).node = some n ∧
      (m'.observer.graph.node n).isConstant = false := by
  obtain ⟨u, v, hs, hf, hr⟩ := h.effect
  rw [← hs.size, ← hf.size] at hlt
  have hout' : v.IsOutput id := by rwa [Store.IsOutput, hf.kind, hs.kind]
  generalize m'.observer.graph = g' at hr ⊢
  generalize m'.store = s' at hr ⊢
  cases hr with
  | void => exact absurd rfl ho
  | source hkeeps | constant hkeeps => exact absurd hout' hkeeps
  | derived _ hr | copy _ _ hr | copyConstant _ _ _ hr =>
    subst hr
    exact ⟨_, v.node_bind_self _ hlt, Graph.node_derive_not_constant ..⟩

lemma pcValue (h : Done m m' g d e) (hl : m.store.Laid) :
    m'.store.pcValue = e.pcAfter m.store.pcValue := by
  obtain ⟨u, v, hs, hf, hr⟩ := h.effect
  have hpos := hl.kind_pc.1
  have hu : u.pcValue = m.store.pcValue := by
    rw [Store.pcValue, hs.other hl.pc_not_input, Store.pcValue]
  rw [← hu, ← hf.pcValue (hs.size ▸ hpos), Store.pcValue, hr.value, Store.pcValue]

end Done

end Lineage
