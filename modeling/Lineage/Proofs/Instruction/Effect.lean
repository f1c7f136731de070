import Lineage.Machine
import Lineage.Proofs.Store.Computation
import Lineage.Proofs.Store.Reading

/-!
What an instruction does to a store.

`Instruction.Reads` sums up the first part of an execution, one case for each operation, and
`Store.Follows` the second part together with the advance of the program counter. An execution that
faults has done nothing but reading.
-/

namespace Lineage

instance {p : Slot → Prop} [DecidablePred p] : Decidable (∀ slot, p slot) :=
  decidable_of_iff (p .a ∧ p .b ∧ p .dst)
    ⟨fun ⟨ha, hb, hdst⟩ slot => match slot with
      | .a => ha
      | .b => hb
      | .dst => hdst, fun h => ⟨h .a, h .b, h .dst⟩⟩

@[simp] lemma Instruction.id?_unknown (slot : Slot) : unknown.id? slot = none := by
  cases slot <;> rfl

/-- The slots that an operation takes a value from, whatever it then does. -/
def Opcode.takes : Opcode → Slot → Bool
  | .binary _, slot => slot ≠ .dst
  | .stm, slot => slot ≠ .b
  | .ldm, slot | .str, slot | .bisz, slot | .jcc, slot => slot = .a
  | .undef, _ | .unkn, _ | .nop, _ => false

/-- What an instruction finds out by reading: the effect it will have, and the store it leaves for
it. -/
inductive Instruction.Reads (i : Instruction) (s : Store) : Effect → Store → Prop
  | binary {op : BinaryOp} {a b dst : OperandId} {v : Value} (opcode : i.opcode = .binary op)
      (a_eq : i.id? .a = some a) (b_eq : i.id? .b = some b) (dst_eq : i.id? .dst = some dst)
      (eval : op.eval (s.read a).1 ((s.read a).2.read b).1 = some v) :
      Reads i s (.write dst v) ((s.read a).2.read b).2
  | ldm {a dst cell : OperandId} (opcode : i.opcode = .ldm) (a_eq : i.id? .a = some a)
      (dst_eq : i.id? .dst = some dst) (cell_eq : s.memoryCell (s.read a).1 = .ok cell) :
      Reads i s (.write dst ((s.read a).2.read cell).1) ((s.read a).2.read cell).2
  | stm {a dst cell : OperandId} (opcode : i.opcode = .stm) (a_eq : i.id? .a = some a)
      (dst_eq : i.id? .dst = some dst)
      (cell_eq : s.memoryCell ((s.read a).2.read dst).1 = .ok cell) :
      Reads i s (.write cell (s.read a).1) ((s.read a).2.read dst).2
  | str {a dst : OperandId} (opcode : i.opcode = .str) (a_eq : i.id? .a = some a)
      (dst_eq : i.id? .dst = some dst) : Reads i s (.write dst (s.read a).1) (s.read a).2
  | bisz {a dst : OperandId} (opcode : i.opcode = .bisz) (a_eq : i.id? .a = some a)
      (dst_eq : i.id? .dst = some dst) :
      Reads i s (.write dst (Value.ofBool ((s.read a).1 = 0))) (s.read a).2
  | pass {a : OperandId} (opcode : i.opcode = .jcc) (a_eq : i.id? .a = some a)
      (zero : (s.read a).1 = 0) : Reads i s .idle (s.read a).2
  | jump {a dst : OperandId} (opcode : i.opcode = .jcc) (a_eq : i.id? .a = some a)
      (dst_eq : i.id? .dst = some dst) (nonzero : (s.read a).1 ≠ 0) :
      Reads i s (.jump ((s.read a).2.read dst).1) ((s.read a).2.read dst).2
  | undef {dst : OperandId} (opcode : i.opcode = .undef) (dst_eq : i.id? .dst = some dst) :
      Reads i s (.write dst 0) s
  | nop (opcode : i.opcode = .nop) : Reads i s .idle s
  | unkn (opcode : i.opcode = .unkn) : Reads i s .halt s

namespace Exec

variable {α β : Type} {s t : Store}

lemma bind_operand_ok {i : Instruction} {slot : Slot} {f : OperandId → Exec β} {b : β}
    (h : (operand i slot >>= f) s = .ok b t) : ∃ id, i.id? slot = some id ∧ f id s = .ok b t := by
  obtain ⟨id, u, hid, h⟩ := bind_ok h
  unfold operand at hid
  cases hj : i.id? slot with
  | some j => rw [hj] at hid; cases hid; exact ⟨_, rfl, h⟩
  | none => rw [hj] at hid; cases hid

lemma bind_read_ok {id : OperandId} {f : Value → Exec β} {b : β}
    (h : (Exec.read id >>= f) s = .ok b t) : f (s.read id).1 (s.read id).2 = .ok b t := h

lemma bind_cell_ok {address : Value} {f : OperandId → Exec β} {b : β}
    (h : (cell address >>= f) s = .ok b t) :
    ∃ id, s.memoryCell address = .ok id ∧ f id s = .ok b t := by
  obtain ⟨id, u, hid, h⟩ := bind_ok h
  obtain ⟨u, s', hget, hid⟩ := bind_ok hid
  cases hget
  cases hc : s.memoryCell address with
  | ok c => rw [hc] at hid; cases hid; exact ⟨_, rfl, h⟩
  | error e => rw [hc] at hid; cases hid

lemma quiet_bind {x : Exec α} {f : α → Exec β} (hx : Keeps Store.Steady x)
    (hf : ∀ a, Keeps Store.Steady (f a)) : Keeps Store.Steady (x >>= f) :=
  keeps_bind (fun _ _ _ h h' => h.trans h') hx hf

lemma quiet_operand (i : Instruction) (slot : Slot) : Keeps Store.Steady (operand i slot) := by
  unfold operand
  split
  · exact keeps_pure .refl _
  · exact keeps_throw .refl _

lemma quiet_read (id : OperandId) : Keeps Store.Steady (Exec.read id) := fun s => s.read_steady id

lemma quiet_cell (address : Value) : Keeps Store.Steady (cell address) := by
  refine quiet_bind (fun s => .refl s) fun s => ?_
  cases s.memoryCell address with
  | ok c => exact keeps_pure .refl c
  | error e => exact keeps_throw .refl _

end Exec

namespace Instruction

open Exec

variable {i : Instruction} {s t : Store}

/-- The first part of an execution does nothing but reading, whether it faults or not. -/
lemma effect_quiet (i : Instruction) : Keeps Store.Steady i.effect := by
  unfold effect
  split
  · next op =>
    refine quiet_bind (quiet_operand i .a) fun _ => quiet_bind (quiet_read _) fun _ =>
      quiet_bind (quiet_operand i .b) fun _ => quiet_bind (quiet_read _) fun _ => ?_
    split
    · exact keeps_throw .refl _
    · exact quiet_bind (quiet_operand i .dst) fun _ => keeps_pure .refl _
  · exact quiet_bind (quiet_operand i .a) fun _ => quiet_bind (quiet_read _) fun _ =>
      quiet_bind (quiet_cell _) fun _ => quiet_bind (quiet_read _) fun _ =>
      quiet_bind (quiet_operand i .dst) fun _ => keeps_pure .refl _
  · exact quiet_bind (quiet_operand i .a) fun _ => quiet_bind (quiet_read _) fun _ =>
      quiet_bind (quiet_operand i .dst) fun _ => quiet_bind (quiet_read _) fun _ =>
      quiet_bind (quiet_cell _) fun _ => keeps_pure .refl _
  · exact quiet_bind (quiet_operand i .a) fun _ => quiet_bind (quiet_read _) fun _ =>
      quiet_bind (quiet_operand i .dst) fun _ => keeps_pure .refl _
  · exact quiet_bind (quiet_operand i .a) fun _ => quiet_bind (quiet_read _) fun _ =>
      quiet_bind (quiet_operand i .dst) fun _ => keeps_pure .refl _
  · refine quiet_bind (quiet_operand i .a) fun _ => quiet_bind (quiet_read _) fun v => ?_
    by_cases hv : v = 0
    · simpa only [hv, if_true] using keeps_pure .refl _
    · simpa only [hv, if_false] using quiet_bind (quiet_operand i .dst) fun _ =>
        quiet_bind (quiet_read _) fun _ => keeps_pure .refl _
  · exact quiet_bind (quiet_operand i .dst) fun _ => keeps_pure .refl _
  · exact keeps_pure .refl _
  · exact keeps_pure .refl _

lemma reads_of_effect {e : Effect} (h : i.effect s = .ok e t) : i.Reads s e t := by
  unfold effect at h
  cases hop : i.opcode with
  | binary op =>
    rw [hop] at h
    obtain ⟨a, ha, h⟩ := bind_operand_ok h
    obtain ⟨b, hb, h⟩ := bind_operand_ok (bind_read_ok h)
    replace h := bind_read_ok h
    cases hv : op.eval (s.read a).1 ((s.read a).2.read b).1 with
    | none => rw [hv] at h; cases h
    | some v =>
      rw [hv] at h
      obtain ⟨dst, hdst, h⟩ := bind_operand_ok h
      cases h
      exact .binary hop ha hb hdst hv
  | ldm =>
    rw [hop] at h
    obtain ⟨a, ha, h⟩ := bind_operand_ok h
    obtain ⟨cell, hc, h⟩ := bind_cell_ok (bind_read_ok h)
    obtain ⟨dst, hdst, h⟩ := bind_operand_ok (bind_read_ok h)
    rw [(s.read_steady a).memoryCell] at hc
    cases h
    exact .ldm hop ha hdst hc
  | stm =>
    rw [hop] at h
    obtain ⟨a, ha, h⟩ := bind_operand_ok h
    obtain ⟨dst, hdst, h⟩ := bind_operand_ok (bind_read_ok h)
    obtain ⟨cell, hc, h⟩ := bind_cell_ok (bind_read_ok h)
    rw [((s.read_steady a).trans (Store.read_steady _ dst)).memoryCell] at hc
    cases h
    exact .stm hop ha hdst hc
  | str =>
    rw [hop] at h
    obtain ⟨a, ha, h⟩ := bind_operand_ok h
    obtain ⟨dst, hdst, h⟩ := bind_operand_ok (bind_read_ok h)
    cases h
    exact .str hop ha hdst
  | bisz =>
    rw [hop] at h
    obtain ⟨a, ha, h⟩ := bind_operand_ok h
    obtain ⟨dst, hdst, h⟩ := bind_operand_ok (bind_read_ok h)
    cases h
    exact .bisz hop ha hdst
  | jcc =>
    rw [hop] at h
    obtain ⟨a, ha, h⟩ := bind_operand_ok h
    replace h := bind_read_ok h
    by_cases hz : (s.read a).1 = 0
    · simp only [hz, if_true] at h
      cases h
      exact .pass hop ha hz
    · simp only [hz, if_false] at h
      obtain ⟨dst, hdst, h⟩ := bind_operand_ok h
      replace h := bind_read_ok h
      cases h
      exact .jump hop ha hdst hz
  | undef =>
    rw [hop] at h
    obtain ⟨dst, hdst, h⟩ := bind_operand_ok h
    cases h
    exact .undef hop hdst
  | unkn => rw [hop] at h; cases h; exact .unkn hop
  | nop => rw [hop] at h; cases h; exact .nop hop

lemma Reads.steady {e : Effect} (h : i.Reads s e t) : s.Steady t := by
  cases h with
  | binary | ldm | stm | jump => exact (s.read_steady _).trans (Store.read_steady _ _)
  | str | bisz | pass => exact s.read_steady _
  | undef | nop | unkn => exact .refl s

end Instruction

/-! ### The second part -/

/-- The program counter behind a step with this effect. -/
def Effect.pcAfter (pc : Value) : Effect → Value
  | .write target v => (if target = Store.pc then v else pc) + 1
  | .jump target => target
  | .idle => pc + 1
  | .halt => pc

namespace Store

variable {s t : Store} {e : Effect}

/-- The second store is the first behind an effect and the advance of the program counter. -/
structure Follows (e : Effect) (s t : Store) : Prop where
  layout : t.layout = s.layout
  source : t.source = s.source
  reads : t.reads = s.reads
  size : t.operands.size = s.operands.size
  kind : ∀ id, (t.operand id).kind = (s.operand id).kind
  node : ∀ id, (t.operand id).node = (s.operand id).node
  writable : ∀ {target v}, e = .write target v → (s.operand target).isWritable = true
  target : ∀ {target v}, e = .write target v → target ≠ pc → target < s.operands.size →
    (t.operand target).value = v
  other : ∀ {id}, id ≠ pc → (∀ v, e ≠ .write id v) → t.operand id = s.operand id
  pcValue : 0 < s.operands.size → t.pcValue = e.pcAfter s.pcValue

/-- A write that is not refused changes the value, and at an output channel the mark of it. -/
lemma write_ok {target : OperandId} {v : Value} (h : s.write target v = .ok t) :
    (s.operand target).isWritable = true ∧ t.layout = s.layout ∧ t.source = s.source ∧
      t.reads = s.reads ∧ t.operands.size = s.operands.size ∧
      ∃ w : Bool → Bool, ∀ j, t.operand j = if target = j ∧ j < s.operands.size then
        { s.operand j with value := v, written := w (s.operand j).written } else s.operand j := by
  unfold write at h
  unfold Operand.isWritable
  cases hk : (s.operand target).kind with
  | register name | memory n =>
    simp only [hk] at h
    cases h
    exact ⟨rfl, rfl, rfl, rfl, size_modify .., id, operand_modify s target _⟩
  | output c =>
    simp only [hk] at h
    cases h
    exact ⟨rfl, rfl, rfl, rfl, size_modify .., fun _ => true, operand_modify s target _⟩
  | constant v | input c => simp only [hk, reduceCtorEq] at h

lemma operand_setPc (s : Store) (v : Value) {id : OperandId} (h : id ≠ pc) :
    (s.setPc v).operand id = s.operand id := by
  rw [setPc, operand_modify, if_neg fun h' => h h'.1.symm]

lemma kind_setPc (s : Store) (v : Value) (id : OperandId) :
    ((s.setPc v).operand id).kind = (s.operand id).kind := by
  rw [setPc, operand_modify]; split <;> rfl

lemma node_setPc (s : Store) (v : Value) (id : OperandId) :
    ((s.setPc v).operand id).node = (s.operand id).node := by
  rw [setPc, operand_modify]; split <;> rfl

lemma pcValue_setPc (v : Value) (h : 0 < s.operands.size) : (s.setPc v).pcValue = v := by
  rw [pcValue, setPc, operand_modify, if_pos ⟨rfl, h⟩]

lemma follows_setPc {v : Value} (he : ∀ target v, e ≠ .write target v)
    (hv : e.pcAfter s.pcValue = v) : s.Follows e (s.setPc v) where
  layout := rfl
  source := rfl
  reads := rfl
  size := size_modify ..
  kind := kind_setPc s v
  node := node_setPc s v
  writable h := absurd h (he _ _)
  target h := absurd h (he _ _)
  other hid _ := operand_setPc s v hid
  pcValue h := (pcValue_setPc v h).trans hv.symm

lemma follows_halt (s : Store) : s.Follows .halt s where
  layout := rfl
  source := rfl
  reads := rfl
  size := rfl
  kind _ := rfl
  node _ := rfl
  writable h := by cases h
  target h := by cases h
  other _ _ := rfl
  pcValue _ := rfl

lemma follows_write {target : OperandId} {v : Value} (h : s.write target v = .ok t) :
    s.Follows (.write target v) (t.setPc (t.pcValue + 1)) := by
  obtain ⟨hw, hl, hsrc, hr, hsize, w, hop⟩ := write_ok h
  refine ⟨hl, hsrc, hr, ?_, fun j => ?_, fun j => ?_, ?_, ?_, ?_, ?_⟩
  · rw [setPc, size_modify, hsize]
  · rw [kind_setPc, hop]; split <;> rfl
  · rw [node_setPc, hop]; split <;> rfl
  · rintro _ _ ⟨⟩; exact hw
  · rintro _ _ ⟨⟩ hpc hlt
    rw [operand_setPc _ _ hpc, hop, if_pos ⟨rfl, hlt⟩]
  · intro j hj hne
    rw [operand_setPc _ _ hj, hop, if_neg]
    rintro ⟨rfl, -⟩
    exact hne v rfl
  · intro hpos
    rw [pcValue_setPc _ (by omega), Effect.pcAfter, pcValue, hop, pcValue]
    by_cases ht : target = pc
    · rw [if_pos ⟨ht, hpos⟩, if_pos ht]
    · rw [if_neg fun h' => ht h'.1, if_neg ht]

end Store

namespace Instruction

variable {s t : Store} {e : Effect}

lemma write_eq (target : OperandId) (v : Value) (s : Store) :
    Exec.write target v s = (Exec.liftAccess (s.write target v) >>= set : Exec Unit) s := rfl

lemma follows_of_perform {flow : Flow} (h : perform e s = .ok flow t) :
    s.Follows e (Machine.advance t flow) ∧ (flow = .halt ↔ e = .halt) := by
  cases e with
  | write target v =>
    obtain ⟨_, u, hw, h⟩ := bind_ok h
    cases h
    refine ⟨?_, by simp⟩
    rw [write_eq] at hw
    cases hs : s.write target v with
    | ok u' =>
      rw [hs] at hw
      cases hw
      exact Store.follows_write hs
    | error f =>
      rw [hs] at hw
      cases hw
  | jump target =>
    cases h
    exact ⟨Store.follows_setPc (by simp) rfl, by simp⟩
  | idle =>
    cases h
    exact ⟨Store.follows_setPc (by simp) rfl, by simp⟩
  | halt =>
    cases h
    exact ⟨Store.follows_halt s, by simp⟩

lemma perform_error {f : Fault} (h : perform e s = .error f t) : t = s := by
  cases e with
  | write target v =>
    change (Exec.write target v >>= fun _ => pure Flow.next : Exec Flow) s = _ at h
    simp only [bind, EStateM.bind, write_eq] at h
    cases hs : s.write target v with
    | ok u =>
      rw [hs] at h
      cases h
    | error f =>
      rw [hs] at h
      cases h
      rfl
  | jump | idle | halt => cases h

variable {i : Instruction}

/-- An execution that succeeds is one of reading, and of an effect. -/
lemma follows_of_execute {flow : Flow} (h : i.execute s = .ok flow t) :
    ∃ e u, i.Reads s e u ∧ u.Follows e (Machine.advance t flow) := by
  obtain ⟨e, u, heff, hperf⟩ := bind_ok h
  exact ⟨e, u, reads_of_effect heff, (follows_of_perform hperf).1⟩

lemma steady_of_execute_error {f : Fault} (h : i.execute s = .error f t) : s.Steady t := by
  cases heff : i.effect s with
  | error f' u =>
    simp only [execute, bind, EStateM.bind, heff] at h
    cases h
    exact (effect_quiet i).error heff
  | ok e u =>
    simp only [execute, bind, EStateM.bind, heff] at h
    rw [perform_error h]
    exact (effect_quiet i).ok heff

end Instruction

end Lineage
