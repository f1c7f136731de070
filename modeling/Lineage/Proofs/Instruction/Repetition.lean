import Lineage.Proofs.Store.Table

/-!
Decoding a program again.

All that a program needs is in the table once it is decoded. So as long as the table is kept, the
program is decoded to the same instructions again, and nothing is added.
-/

namespace Lineage

variable {α β : Type} {s t u : Store} {line : Nat} {labels : String → Option Nat}

namespace Binding

/-- If the computation succeeds it interns constants, and it has its result again on every table
that has kept the one behind it. -/
def Repeats (x : Binding α) (s : Store) : Prop :=
  ∀ ⦃a t⦄, x s = .ok a t → s.Interned t ∧ ∀ u, t.Kept u → u.Tabled → x u = .ok a u

lemma repeats_pure (a : α) : Repeats (pure a) s := by
  intro b t h
  cases h
  exact ⟨.refl s, fun _ _ _ => rfl⟩

lemma repeats_throw (e : DecodeError) : Repeats (throw e : Binding α) s := nofun

lemma Repeats.bind {x : Binding α} {f : α → Binding β} (hx : Repeats x s)
    (hf : ∀ a t, x s = .ok a t → Repeats (f a) t) : Repeats (x >>= f) s := by
  intro b t h
  obtain ⟨a, s', ha, hb⟩ := bind_ok h
  obtain ⟨hi, hagain⟩ := hx ha
  obtain ⟨hi', hagain'⟩ := hf a s' ha hb
  refine ⟨hi.trans hi', fun u hu htab => ?_⟩
  have hau := hagain u (hi'.kept.trans hu) htab
  show (x >>= f) u = _
  simp only [Bind.bind, EStateM.bind, hau]
  exact hagain' u hu htab

lemma repeats_lookup {find : Store → Except AccessError OperandId}
    (hfind : ∀ {t : Store}, t.layout = s.layout → find t = find s) :
    Repeats (lookup line find) s := by
  intro id t h
  obtain ⟨hid, rfl⟩ := lookup_ok h
  exact ⟨.refl t, fun u hu _ => lookup_eq_ok ((hfind hu.layout).trans hid)⟩

lemma repeats_intern (v : Value) : Repeats (intern v) s := by
  intro id t h
  have hintern : intern v s = .ok (s.intern v).1 (s.intern v).2 := rfl
  rw [hintern, EStateM.Result.ok.injEq] at h
  obtain ⟨rfl, rfl⟩ := h
  obtain ⟨hlt, hkind⟩ := s.intern_ok v
  refine ⟨s.intern_interned v, fun u hu htab => ?_⟩
  show EStateM.Result.ok (u.intern v).1 (u.intern v).2 = _
  rw [htab.intern_eq ((hu.kind hlt).trans hkind)]

lemma repeats_resolve (tok : Token) : Repeats (resolve labels line tok) s := by
  cases tok with
  | constant v => exact repeats_intern v
  | memory a => exact repeats_lookup fun h => by simp only [Store.memoryCell, h]
  | input c => exact repeats_lookup fun h => by simp only [Store.input, h]
  | output c => exact repeats_lookup fun h => by simp only [Store.output, h]
  | register name => exact repeats_lookup fun h => by simp only [Store.register, h]
  | label name =>
    simp only [resolve]
    cases labels name with
    | some position => exact repeats_intern _
    | none => exact repeats_throw _

lemma repeats_slot (hl : s.Laid) (o : Option Token) : Repeats (slot labels line o) s := by
  cases o with
  | none => exact repeats_pure none
  | some tok =>
    refine (repeats_resolve tok).bind fun id t hid => ?_
    have hlt := (stands_resolve hl hid).1
    intro r t' h
    cases h
    refine ⟨.refl t, fun u hu _ => ?_⟩
    show EStateM.Result.ok (some (Ref.mk id (u.operand id).name)) u = _
    rw [hu.name hlt]

lemma repeats_checkWritable (op : Opcode) {r : Option Ref}
    (hr : ∀ ref ∈ r, ref.id < s.operands.size) : Repeats (checkWritable line op r) s := by
  cases r with
  | none => exact repeats_pure ()
  | some ref =>
    have hlt := hr ref rfl
    intro a t h
    change (if op.writesDst = true ∧ (s.operand ref.id).isWritable = false then
      throw (.notWritable line op ref.name) else pure () : Binding Unit) s = _ at h
    split at h
    · cases h
    · next hnot =>
      cases h
      refine ⟨.refl s, fun u hu _ => ?_⟩
      show (if op.writesDst = true ∧ (u.operand ref.id).isWritable = false then
        throw (.notWritable line op ref.name) else pure () : Binding Unit) u = _
      rw [Operand.isWritable, hu.kind hlt, ← Operand.isWritable, if_neg hnot]
      rfl

lemma repeats_statement (hl : s.Laid) (st : Statement) : Repeats (statement labels st) s := by
  refine (repeats_slot hl _).bind fun a s₁ ha => ?_
  have hl₁ := ((keeps_slot .interned _ _ _).ok ha).laid hl
  refine (repeats_slot hl₁ _).bind fun b s₂ hb => ?_
  have hl₂ := ((keeps_slot .interned _ _ _).ok hb).laid hl₁
  refine (repeats_slot hl₂ _).bind fun dst s₃ hdst => ?_
  refine (repeats_checkWritable _ fun ref href => ?_).bind fun _ _ _ => repeats_pure _
  obtain ⟨tok, -, hresolve⟩ := (slot_ok hdst).2 ref href
  exact (stands_resolve hl₂ hresolve).1

lemma repeats_mapM (hl : s.Laid) (sts : List Statement) :
    Repeats (sts.mapM (statement labels)) s := by
  induction sts generalizing s with
  | nil =>
    rw [List.mapM_nil]
    exact repeats_pure _
  | cons st sts ih =>
    rw [List.mapM_cons]
    refine (repeats_statement hl st).bind fun i t hi => ?_
    refine (ih (((keeps_statement .interned _ _).ok hi).laid hl)).bind fun is u _ => ?_
    exact repeats_pure _

end Binding

/-- A program that has been decoded is decoded to the same instructions as long as the table is
kept, with nothing added to it. -/
lemma decode_again {program : String} {is : List Instruction} (hl : s.Laid)
    (h : decode program s = .ok is t) (hu : t.Kept u) (htab : u.Tabled) :
    decode program u = .ok is u := by
  unfold decode at h ⊢
  cases hparse : Listing.parse program with
  | ok l =>
    rw [hparse] at h
    exact (Binding.repeats_mapM hl _ h).2 u hu htab
  | error e =>
    rw [hparse] at h
    cases h

end Lineage
