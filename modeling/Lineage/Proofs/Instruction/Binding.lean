import Lineage.Instruction.Decode
import Lineage.Instruction.Execute
import Lineage.Proofs.Store.Layout
import Lineage.Proofs.Store.Similar

/-!
What decoding and executing depend on.

Decoding a program does nothing to a store but intern constants, whether it fails or not, and it
cannot tell stores apart that have the same operands. Executing cannot tell stores apart that are
related by a congruence.
-/

namespace Lineage

variable {ε α β : Type} {R S : Store → Store → Prop}

lemma keeps_mapM (refl : ∀ s, R s s) (trans : ∀ ⦃s t u⦄, R s t → R t u → R s u)
    {f : α → EStateM ε Store β} (hf : ∀ a, Keeps R (f a)) (l : List α) :
    Keeps R (l.mapM f) := by
  induction l with
  | nil =>
    rw [List.mapM_nil]
    exact keeps_pure refl _
  | cons a l ih =>
    rw [List.mapM_cons]
    refine keeps_bind trans (hf a) fun b => keeps_bind trans ih fun bs => ?_
    exact keeps_pure refl _

lemma respects_mapM {f : α → EStateM ε Store β} (hf : ∀ a, Respects S (f a)) (l : List α) :
    Respects S (l.mapM f) := by
  induction l with
  | nil =>
    rw [List.mapM_nil]
    exact respects_pure _
  | cons a l ih =>
    rw [List.mapM_cons]
    exact respects_bind (hf a) fun _ => respects_bind ih fun _ => respects_pure _

/-! ### Decoding -/

/-- A relation of stores that interning constants, one after the other, does not leave. -/
structure Store.Interning (R : Store → Store → Prop) : Prop where
  refl : ∀ s, R s s
  trans : ∀ ⦃s t u⦄, R s t → R t u → R s u
  intern : ∀ s v, R s (s.intern v).2

lemma Store.Interning.interned : Interning Interned where
  refl := .refl
  trans _ _ _ h h' := h.trans h'
  intern := intern_interned

namespace Binding

section Keeps

variable (hR : Store.Interning R)
include hR

lemma keeps_lookup (line : Nat) (find : Store → Except AccessError OperandId) :
    Keeps R (lookup line find) := by
  refine keeps_bind hR.trans hR.refl fun s => ?_
  cases find s with
  | ok id => exact keeps_pure hR.refl id
  | error e => exact keeps_throw hR.refl _

lemma keeps_intern (v : Value) : Keeps R (intern v) := fun s => hR.intern s v

lemma keeps_resolve (labels : String → Option Nat) (line : Nat) (t : Token) :
    Keeps R (resolve labels line t) := by
  cases t with
  | constant v => exact keeps_intern hR v
  | memory | input | output | register => exact keeps_lookup hR line _
  | label name =>
    simp only [resolve]
    cases labels name with
    | some position => exact keeps_intern hR _
    | none => exact keeps_throw hR.refl _

lemma keeps_slot (labels : String → Option Nat) (line : Nat) (t : Option Token) :
    Keeps R (slot labels line t) := by
  cases t with
  | none => exact keeps_pure hR.refl _
  | some t =>
    exact keeps_bind hR.trans (keeps_resolve hR labels line t) fun _ =>
      keeps_bind hR.trans hR.refl fun _ => keeps_pure hR.refl _

lemma keeps_checkWritable (line : Nat) (op : Opcode) (r : Option Ref) :
    Keeps R (checkWritable line op r) := by
  cases r with
  | none => exact keeps_pure hR.refl _
  | some r =>
    refine keeps_bind hR.trans hR.refl fun s => ?_
    split
    · exact keeps_throw hR.refl _
    · exact keeps_pure hR.refl _

lemma keeps_statement (labels : String → Option Nat) (st : Statement) :
    Keeps R (statement labels st) :=
  keeps_bind hR.trans (keeps_slot hR _ _ _) fun _ =>
    keeps_bind hR.trans (keeps_slot hR _ _ _) fun _ =>
    keeps_bind hR.trans (keeps_slot hR _ _ _) fun _ =>
    keeps_bind hR.trans (keeps_checkWritable hR _ _ _) fun _ => keeps_pure hR.refl _

end Keeps

section Respects

lemma respects_lookup (line : Nat) {find : Store → Except AccessError OperandId}
    (hfind : ∀ ⦃s t⦄, S s t → find t = find s) : Respects S (lookup line find) := by
  refine respects_get_bind fun s t h => ?_
  rw [hfind h]
  cases find s with
  | ok id => exact .ok id h
  | error e => exact .error _ h

variable (hS : Likeness S)
include hS

lemma respects_intern (v : Value) : Respects S (intern v) := by
  intro s t h
  obtain ⟨hid, h'⟩ := hS.intern h v
  have hs : intern v s = .ok (s.intern v).1 (s.intern v).2 := rfl
  have ht : intern v t = .ok (s.intern v).1 (t.intern v).2 := by rw [← hid]; rfl
  rw [hs, ht]
  exact .ok _ h'

lemma respects_resolve (labels : String → Option Nat) (line : Nat) (t : Token) :
    Respects S (resolve labels line t) := by
  cases t with
  | constant v => exact respects_intern hS v
  | memory address =>
    exact respects_lookup line fun _ _ h => by simp only [Store.memoryCell, hS.layout h]
  | input channel => exact respects_lookup line fun _ _ h => by simp only [Store.input, hS.layout h]
  | output channel =>
    exact respects_lookup line fun _ _ h => by simp only [Store.output, hS.layout h]
  | register name =>
    exact respects_lookup line fun _ _ h => by simp only [Store.register, hS.layout h]
  | label name =>
    simp only [resolve]
    cases labels name with
    | some position => exact respects_intern hS _
    | none => exact respects_throw _

lemma respects_slot (labels : String → Option Nat) (line : Nat) (t : Option Token) :
    Respects S (slot labels line t) := by
  cases t with
  | none => exact respects_pure _
  | some t =>
    refine respects_bind (respects_resolve hS labels line t) fun id => ?_
    refine respects_get_bind fun s u h => ?_
    have hname : (u.operand id).name = (s.operand id).name := by
      simp only [Operand.name, hS.kind h]
    rw [hname]
    exact .ok _ h

lemma respects_checkWritable (line : Nat) (op : Opcode) (r : Option Ref) :
    Respects S (checkWritable line op r) := by
  cases r with
  | none => exact respects_pure _
  | some r =>
    refine respects_get_bind fun s u h => ?_
    have hw : (u.operand r.id).isWritable = (s.operand r.id).isWritable := by
      simp only [Operand.isWritable, hS.kind h]
    rw [hw]
    split
    · exact .error _ h
    · exact .ok _ h

lemma respects_statement (labels : String → Option Nat) (st : Statement) :
    Respects S (statement labels st) :=
  respects_bind (respects_slot hS _ _ _) fun _ => respects_bind (respects_slot hS _ _ _) fun _ =>
    respects_bind (respects_slot hS _ _ _) fun _ =>
    respects_bind (respects_checkWritable hS _ _ _) fun _ => respects_pure _

end Respects

end Binding

lemma keeps_decode (hR : Store.Interning R) (program : String) : Keeps R (decode program) := by
  unfold decode
  cases Listing.parse program with
  | ok l => exact keeps_mapM hR.refl hR.trans (Binding.keeps_statement hR _) _
  | error e => exact keeps_throw hR.refl _

lemma respects_decode (hS : Likeness S) (program : String) : Respects S (decode program) := by
  unfold decode
  cases Listing.parse program with
  | ok l => exact respects_mapM (Binding.respects_statement hS _) _
  | error e => exact respects_throw _

/-! ### Executing -/

namespace Exec

variable (hS : Congruence S)

lemma respects_operand (i : Instruction) (slot : Slot) : Respects S (operand i slot) := by
  unfold operand
  cases i.id? slot with
  | some id => exact respects_pure id
  | none => exact respects_throw _

include hS

lemma respects_read (id : OperandId) : Respects S (read id) := by
  intro s t h
  obtain ⟨hv, h'⟩ := hS.read h id
  have hs : read id s = .ok (s.read id).1 (s.read id).2 := rfl
  have ht : read id t = .ok (s.read id).1 (t.read id).2 := by rw [← hv]; rfl
  rw [hs, ht]
  exact .ok _ h'

lemma respects_cell (address : Value) : Respects S (cell address) := by
  refine respects_get_bind fun s t h => ?_
  have hcell : t.memoryCell address = s.memoryCell address := by
    simp only [Store.memoryCell, hS.layout h]
  rw [hcell]
  cases s.memoryCell address with
  | ok id => exact .ok id h
  | error e => exact .error _ h

omit hS in
lemma respects_write
    (hwrite : ∀ {s t}, S s t → ∀ id v, SameWrite S (s.write id v) (t.write id v)) (id : OperandId)
    (v : Value) : Respects S (write id v) := by
  refine respects_get_bind fun s t h => ?_
  have hw := hwrite h id v
  generalize s.write id v = r at hw ⊢
  generalize t.write id v = r' at hw ⊢
  cases hw with
  | ok h' => exact .ok _ h'
  | error e => exact .error _ h

end Exec

namespace Instruction

open Exec

variable (hS : Congruence S)
include hS

lemma respects_effect (i : Instruction) : Respects S i.effect := by
  unfold effect
  split
  · next op =>
    refine respects_bind (respects_operand i .a) fun _ => respects_bind (respects_read hS _)
      fun _ => respects_bind (respects_operand i .b) fun _ => respects_bind (respects_read hS _)
      fun _ => ?_
    split
    · exact respects_throw _
    · exact respects_bind (respects_operand i .dst) fun _ => respects_pure _
  · exact respects_bind (respects_operand i .a) fun _ => respects_bind (respects_read hS _)
      fun _ => respects_bind (respects_cell hS _) fun _ => respects_bind (respects_read hS _)
      fun _ => respects_bind (respects_operand i .dst) fun _ => respects_pure _
  · exact respects_bind (respects_operand i .a) fun _ => respects_bind (respects_read hS _)
      fun _ => respects_bind (respects_operand i .dst) fun _ => respects_bind (respects_read hS _)
      fun _ => respects_bind (respects_cell hS _) fun _ => respects_pure _
  · exact respects_bind (respects_operand i .a) fun _ => respects_bind (respects_read hS _)
      fun _ => respects_bind (respects_operand i .dst) fun _ => respects_pure _
  · exact respects_bind (respects_operand i .a) fun _ => respects_bind (respects_read hS _)
      fun _ => respects_bind (respects_operand i .dst) fun _ => respects_pure _
  · refine respects_bind (respects_operand i .a) fun _ => respects_bind (respects_read hS _)
      fun v => ?_
    by_cases hv : v = 0
    · simpa only [hv, if_true] using respects_pure _
    · simpa only [hv, if_false] using respects_bind (respects_operand i .dst) fun _ =>
        respects_bind (respects_read hS _) fun _ => respects_pure _
  · exact respects_bind (respects_operand i .dst) fun _ => respects_pure _
  · exact respects_pure _
  · exact respects_pure _

omit hS in
lemma respects_perform
    (hwrite : ∀ {s t}, S s t → ∀ id v, SameWrite S (s.write id v) (t.write id v))
    (hsetPc : ∀ {s t}, S s t → ∀ v, S (s.setPc v) (t.setPc v)) (e : Effect) :
    Respects S (perform e) := by
  cases e with
  | write target v =>
    exact respects_bind (respects_write hwrite target v) fun _ => respects_pure _
  | jump target =>
    exact respects_bind (fun _ _ h => .ok _ (hsetPc h target)) fun _ => respects_pure _
  | idle => exact respects_pure _
  | halt => exact respects_pure _

lemma respects_execute (i : Instruction) : Respects S i.execute :=
  respects_bind (respects_effect hS i) fun e => respects_perform hS.write hS.setPc e

end Instruction

end Lineage
