import Lineage.Proofs.Store.Computation
import Lineage.Proofs.Store.Reading

/-!
Stores that differ in the bound nodes and the peeks at most.

No operation of a store depends on the nodes that are bound to its operands, and on a source that
ignores peeks none depends on them either. `Congruence` collects what of a relation on stores makes
every execution and every decoding respect it; similarity has it, and so has equality.
-/

namespace Lineage

/-- An operand without the node bound to it. -/
def Operand.bare (o : Operand) : Operand := { o with node := none }

namespace Store

variable {s t u : Store} {id : OperandId}

/-- The stores differ in the bound nodes and the peeks at most. -/
structure Similar (s t : Store) : Prop where
  layout : t.layout = s.layout
  operands : t.operands.map Operand.bare = s.operands.map Operand.bare
  source : t.source = s.source
  consuming : consuming t.reads = consuming s.reads
  emitted : t.emitted = s.emitted

/-- What holds of all operands together holds of each, -/
lemma bare_of_map (h : t.operands.map Operand.bare = s.operands.map Operand.bare)
    (id : OperandId) : (t.operand id).bare = (s.operand id).bare := by
  have hget := congrArg (fun os => os.getD id default) h
  have hbare : ∀ u : Store,
      (u.operands.map Operand.bare).getD id default = (u.operand id).bare := by
    intro u
    simp only [Store.operand, Array.getD_eq_getD_getElem?, Array.getElem?_map]
    cases u.operands[id]? <;> rfl
  simpa only [hbare] using hget

/-- and the other way round. -/
lemma map_of_bare (hsize : t.operands.size = s.operands.size)
    (hoperand : ∀ id, (t.operand id).bare = (s.operand id).bare) :
    t.operands.map Operand.bare = s.operands.map Operand.bare := by
  have hget : ∀ {u : Store} {id : OperandId} (h : id < u.operands.size),
      u.operand id = u.operands[id] := by
    intro u id h
    rw [Store.operand, Array.getD_eq_getD_getElem?, Array.getElem?_eq_getElem h, Option.getD_some]
  apply Array.ext (by simpa using hsize)
  intro id ht hs
  rw [Array.size_map] at ht hs
  rw [Array.getElem_map, Array.getElem_map, ← hget ht, ← hget hs]
  exact hoperand id

namespace Similar

lemma refl (s : Store) : s.Similar s := ⟨rfl, rfl, rfl, rfl, rfl⟩

lemma trans (h : s.Similar t) (h' : t.Similar u) : s.Similar u :=
  ⟨h'.layout.trans h.layout, h'.operands.trans h.operands, h'.source.trans h.source,
    h'.consuming.trans h.consuming, h'.emitted.trans h.emitted⟩

lemma size (h : s.Similar t) : t.operands.size = s.operands.size := by
  simpa using congrArg Array.size h.operands

lemma operand (h : s.Similar t) (id : OperandId) :
    (t.operand id).bare = (s.operand id).bare := bare_of_map h.operands id

lemma kind (h : s.Similar t) (id : OperandId) : (t.operand id).kind = (s.operand id).kind := by
  have hbare := congrArg Operand.kind (h.operand id)
  exact hbare

lemma value (h : s.Similar t) (id : OperandId) : (t.operand id).value = (s.operand id).value := by
  have hbare := congrArg Operand.value (h.operand id)
  exact hbare

end Similar

lemma Similar.mk' (hlayout : t.layout = s.layout) (hsize : t.operands.size = s.operands.size)
    (hoperand : ∀ id, (t.operand id).bare = (s.operand id).bare) (hsource : t.source = s.source)
    (hreads : Lineage.consuming t.reads = Lineage.consuming s.reads)
    (hemitted : t.emitted = s.emitted) : s.Similar t :=
  ⟨hlayout, map_of_bare hsize hoperand, hsource, hreads, hemitted⟩

lemma Peeked.similar (h : s.Peeked t) : s.Similar t :=
  ⟨h.layout, by rw [h.operands], h.source, h.consuming, h.emitted⟩

lemma similar_bind (s : Store) (id : OperandId) (n : NodeId) : s.Similar (s.bind id n) := by
  refine .mk' rfl (size_modify ..) (fun j => ?_) rfl rfl rfl
  rw [operand_bind]
  split <;> rfl

/-- The same change of an operand keeps stores similar if it does not depend on the node. -/
lemma Similar.modify {f : Operand → Operand} (h : s.Similar t)
    (hf : ∀ {o o'}, o'.bare = o.bare → (f o').bare = (f o).bare) (id : OperandId) :
    (s.modify id f).Similar (t.modify id f) := by
  refine .mk' h.layout (by simp [h.size]) (fun j => ?_) h.source h.consuming h.emitted
  rw [operand_modify, operand_modify, h.size]
  split
  · exact hf (h.operand j)
  · exact h.operand j

end Store

/-! ### Congruences -/

/-- Two results of writing: related stores, or one refusal. -/
inductive SameWrite (S : Store → Store → Prop) :
    Except AccessError Store → Except AccessError Store → Prop
  | ok {s t : Store} (h : S s t) : SameWrite S (.ok s) (.ok t)
  | error (e : AccessError) : SameWrite S (.error e) (.error e)

/-- A relation on stores that have the same operands apart from the bound nodes. -/
structure Likeness (S : Store → Store → Prop) : Prop where
  layout : ∀ {s t}, S s t → t.layout = s.layout
  operand : ∀ {s t}, S s t → ∀ id, (t.operand id).bare = (s.operand id).bare
  intern : ∀ {s t}, S s t → ∀ v, (t.intern v).1 = (s.intern v).1 ∧ S (s.intern v).2 (t.intern v).2

/-- A relation on stores that no operation of a store can break. -/
structure Congruence (S : Store → Store → Prop) : Prop extends Likeness S where
  read : ∀ {s t}, S s t → ∀ id, (t.read id).1 = (s.read id).1 ∧ S (s.read id).2 (t.read id).2
  write : ∀ {s t}, S s t → ∀ id v, SameWrite S (s.write id v) (t.write id v)
  setPc : ∀ {s t}, S s t → ∀ v, S (s.setPc v) (t.setPc v)

lemma Likeness.kind {S : Store → Store → Prop} {s t : Store} (hS : Likeness S) (h : S s t)
    (id : OperandId) : (t.operand id).kind = (s.operand id).kind := by
  have hbare := congrArg Operand.kind (hS.operand h id)
  exact hbare

lemma eq_congruence : Congruence Eq where
  layout h := by rw [h]
  operand h _ := by rw [h]
  read h _ := by rw [h]; exact ⟨rfl, rfl⟩
  write h id v := by
    subst h
    cases Store.write _ id v with
    | ok u => exact .ok rfl
    | error e => exact .error e
  setPc h _ := by rw [h]
  intern h _ := by rw [h]; exact ⟨rfl, rfl⟩

/-- Stores that differ in the input source at most. -/
def SameApart (s t : Store) : Prop := t = { s with source := t.source }

lemma sameApart_likeness : Likeness SameApart where
  layout h := by rw [h]
  operand h id := by rw [h]; rfl
  intern {s t} h v := by
    rw [h]
    unfold Store.intern
    cases s.operands.findIdx? (·.kind = .constant v) <;> exact ⟨rfl, rfl⟩

/-- Similar stores on one source. -/
def SimilarOn (src : Source) (s t : Store) : Prop := s.source = src ∧ s.Similar t

namespace SimilarOn

variable {src : Source} {s t : Store}

lemma read (hsrc : src.IgnoresPeeks) (h : SimilarOn src s t) (id : OperandId) :
    (t.read id).1 = (s.read id).1 ∧ SimilarOn src (s.read id).2 (t.read id).2 := by
  obtain ⟨hs, h⟩ := h
  by_cases hi : s.IsInput id
  · obtain ⟨c, hc⟩ := hi
    have hc' : (t.operand id).kind = .input c := (h.kind id).trans hc
    have hv : t.source t.reads c false = s.source s.reads c false := by
      rw [h.source, hs]
      exact hsrc.congr h.consuming c false
    rw [Store.read_input hc, Store.read_input hc', hv]
    refine ⟨rfl, hs, ?_⟩
    have hconsult : (s.consult c false).2.Similar (t.consult c false).2 := by
      refine ⟨h.layout, h.operands, h.source, ?_, h.emitted⟩
      simp only [Store.consult, consuming_read, h.consuming, hv]
    exact hconsult.modify (fun ho => congrArg (fun o : Operand =>
      { o with value := s.source s.reads c false }) ho) id
  · have hi' : ¬ t.IsInput id := by simpa only [Store.IsInput, h.kind] using hi
    rw [Store.read_of_not_input hi, Store.read_of_not_input hi']
    exact ⟨h.value id, hs, h⟩

lemma write (h : SimilarOn src s t) (id : OperandId) (v : Value) :
    SameWrite (SimilarOn src) (s.write id v) (t.write id v) := by
  obtain ⟨hs, h⟩ := h
  unfold Store.write
  cases hk : (s.operand id).kind with
  | register name | memory n =>
    simp only [h.kind, hk]
    exact .ok ⟨hs, h.modify (fun ho => congrArg (fun o : Operand => { o with value := v }) ho) id⟩
  | output c =>
    simp only [h.kind, hk]
    have hm := h.modify (f := fun o => { o with value := v, written := true })
      (fun ho => congrArg (fun o : Operand => { o with value := v, written := true }) ho) id
    exact .ok ⟨hs, hm.layout, hm.operands, hm.source, hm.consuming, by simp [hm.emitted]⟩
  | constant w | input c =>
    simp only [h.kind, hk, Operand.name]
    exact .error _

lemma setPc (h : SimilarOn src s t) (v : Value) : SimilarOn src (s.setPc v) (t.setPc v) :=
  ⟨h.1, h.2.modify (fun ho => congrArg (fun o : Operand => { o with value := v }) ho) _⟩

lemma intern (h : SimilarOn src s t) (v : Value) :
    (t.intern v).1 = (s.intern v).1 ∧ SimilarOn src (s.intern v).2 (t.intern v).2 := by
  obtain ⟨hs, h⟩ := h
  have hfind : t.operands.findIdx? (·.kind = .constant v) =
      s.operands.findIdx? (·.kind = .constant v) := by
    have hbare := congrArg (Array.findIdx? (fun o => o.kind = .constant v)) h.operands
    rw [Array.findIdx?_map, Array.findIdx?_map] at hbare
    exact hbare
  unfold Store.intern
  rw [hfind]
  cases s.operands.findIdx? (·.kind = .constant v) with
  | some j => exact ⟨rfl, hs, h⟩
  | none =>
    refine ⟨h.size, hs, h.layout, ?_, h.source, h.consuming, h.emitted⟩
    simp only [Array.map_push, h.operands]

lemma congruence (hsrc : src.IgnoresPeeks) : Congruence (SimilarOn src) where
  layout h := h.2.layout
  operand h := h.2.operand
  read h := h.read hsrc
  write h := h.write
  setPc h := h.setPc
  intern h := h.intern

end SimilarOn

end Lineage
