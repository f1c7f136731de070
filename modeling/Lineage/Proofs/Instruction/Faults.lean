import Lineage.Proofs.Instruction.Decoding
import Lineage.Proofs.Derivation.Folding

/-!
What can go wrong with an instruction.

`Instruction.Fails` lists the faults of instructions that have what it takes to be executed: a
division by zero, and an address outside the memory. Each is found out by reading, so writing never
fails. Other instructions may lack an operand as well. A failure comes when the operands in the
slots before it have been read.
-/

namespace Lineage

variable {s t : Store} {i : Instruction} {f f' : Fault} {e : Effect}

def Store.Outside (s : Store) (address : Value) : Prop :=
  address.toInt < 0 ∨ s.layout.memorySize ≤ address.toInt

instance (s : Store) (address : Value) : Decidable (s.Outside address) :=
  inferInstanceAs (Decidable (_ ∨ _))

lemma Store.memoryCell_cases (s : Store) (address : Value) :
    (s.Outside address ∧
        s.memoryCell address = .error (.memoryOutOfRange address s.layout.memorySize)) ∨
      ¬ s.Outside address ∧ ∃ cell, s.memoryCell address = .ok cell := by
  unfold memoryCell Outside
  by_cases h : 0 ≤ address.toInt ∧ address.toInt < s.layout.memorySize
  · exact .inr ⟨by omega, _, if_pos h⟩
  · exact .inl ⟨by omega, if_neg h⟩

/-- The faults of an instruction, with the values that it reads. -/
inductive Instruction.Fails (i : Instruction) (s : Store) : Fault → Prop
  | division {op : BinaryOp} {a b : OperandId} (opcode : i.opcode = .binary op)
      (divides : op = .div ∨ op = .mod) (a_eq : i.id? .a = some a) (b_eq : i.id? .b = some b)
      (zero : ((s.read a).2.read b).1 = 0) : Fails i s (.divisionByZero i)
  | load {a : OperandId} (opcode : i.opcode = .ldm) (a_eq : i.id? .a = some a)
      (outside : s.Outside (s.read a).1) :
      Fails i s (.access (.memoryOutOfRange (s.read a).1 s.layout.memorySize))
  | store {a dst : OperandId} (opcode : i.opcode = .stm) (a_eq : i.id? .a = some a)
      (dst_eq : i.id? .dst = some dst) (outside : s.Outside ((s.read a).2.read dst).1) :
      Fails i s
        (.access (.memoryOutOfRange ((s.read a).2.read dst).1 s.layout.memorySize))

namespace Exec

variable {α β : Type}

lemma bind_error {x : Exec α} {g : α → Exec β} (h : (x >>= g) s = .error f t) :
    x s = .error f t ∨ ∃ a u, x s = .ok a u ∧ g a u = .error f t := by
  cases hx : x s with
  | ok a u => exact .inr ⟨a, u, rfl, by simpa only [bind, EStateM.bind, hx] using h⟩
  | error f' u =>
    simp only [bind, EStateM.bind, hx] at h
    cases h
    exact .inl rfl

lemma bind_operand_error {slot : Slot} {g : OperandId → Exec β}
    (h : (operand i slot >>= g) s = .error f t) :
    (i.id? slot = none ∧ f = .missingOperand i slot ∧ t = s) ∨
      ∃ id, i.id? slot = some id ∧ g id s = .error f t := by
  cases hid : i.id? slot with
  | some id =>
    have hoperand : operand i slot = pure id := by
      unfold operand
      rw [hid]
    rw [hoperand] at h
    exact .inr ⟨id, rfl, h⟩
  | none =>
    have hoperand : operand i slot = throw (.missingOperand i slot) := by
      unfold operand
      rw [hid]
    rw [hoperand] at h
    cases h
    exact .inl ⟨rfl, rfl, rfl⟩

lemma bind_read_error {id : OperandId} {g : Value → Exec β}
    (h : (Exec.read id >>= g) s = .error f t) : g (s.read id).1 (s.read id).2 = .error f t := h

lemma bind_cell_error {address : Value} {g : OperandId → Exec β}
    (h : (cell address >>= g) s = .error f t) :
    (s.Outside address ∧ f = .access (.memoryOutOfRange address s.layout.memorySize) ∧ t = s) ∨
      ∃ id, s.memoryCell address = .ok id ∧ g id s = .error f t := by
  have hcell : cell address s = liftAccess (s.memoryCell address) s := rfl
  rcases s.memoryCell_cases address with ⟨hout, hm⟩ | ⟨-, id, hm⟩ <;> rw [hm] at hcell
  · rcases bind_error h with h | ⟨id, u, hid, -⟩
    · rw [hcell] at h
      cases h
      exact .inl ⟨hout, rfl, rfl⟩
    · rw [hcell] at hid
      cases hid
  · rcases bind_error h with h | ⟨id', u, hid, h⟩
    · rw [hcell] at h
      cases h
    · rw [hcell] at hid
      cases hid
      exact .inr ⟨_, hm, h⟩

end Exec

def Opcode.sources (op : Opcode) : List Slot := [.a, .b, .dst].filter op.takes

namespace Store

def readAll (s : Store) (ids : List OperandId) : Store := ids.foldl (fun s id => (s.read id).2) s

@[simp] lemma readAll_nil (s : Store) : s.readAll [] = s := rfl

@[simp] lemma readAll_cons (s : Store) (id : OperandId) (ids : List OperandId) :
    s.readAll (id :: ids) = (s.read id).2.readAll ids := rfl

end Store

namespace Instruction

open Exec

def idsIn (i : Instruction) (slots : List Slot) : List OperandId := slots.filterMap i.id?

/-- The operands that an instruction has read before a fault: those in the slots before the one that
is empty, and all of them if the fault is another one. -/
def readBefore (i : Instruction) : Fault → List OperandId
  | .missingOperand _ slot => i.idsIn (i.opcode.sources.takeWhile (· ≠ slot))
  | .access _ | .divisionByZero _ => i.idsIn i.opcode.sources

/-- A fault that reading leads to, with the store that is left: an operand is missing, or it is one
of the faults that are listed, and no more has been read than stands before it. -/
structure Stops (i : Instruction) (s : Store) (f : Fault) (t : Store) : Prop where
  cause : (∃ slot, i.opcode.uses slot = true ∧ i.id? slot = none ∧ f = .missingOperand i slot) ∨
    i.Fails s f
  reads : s.Laid → t = s.readAll (i.readBefore f)

lemma Fails.unique (h : i.Fails s f) (h' : i.Fails s f') : f = f' := by
  cases h with
  | division hop _ ha hb =>
    cases h' with
    | division => rfl
    | load hop' | store hop' => rw [hop] at hop'; cases hop'
  | load hop ha =>
    cases h' with
    | division hop' | store hop' => rw [hop] at hop'; cases hop'
    | load _ ha' => rw [ha] at ha'; cases ha'; rfl
  | store hop ha hdst =>
    cases h' with
    | division hop' | load hop' => rw [hop] at hop'; cases hop'
    | store _ ha' hdst' => rw [ha] at ha'; rw [hdst] at hdst'; cases ha'; cases hdst'; rfl

lemma Fails.not_reads (h : i.Fails s f) : ¬ i.Reads s e t := by
  have hcell : ∀ {address id}, s.Outside address → s.memoryCell address ≠ .ok id := by
    intro address id hout
    rcases s.memoryCell_cases address with ⟨-, hm⟩ | ⟨hin, -⟩
    · rw [hm]
      exact nofun
    · exact absurd hout hin
  intro hr
  cases h with
  | division hop hdiv ha hb hzero =>
    cases hr with
    | binary hop' ha' hb' _ heval =>
      rw [hop] at hop'; rw [ha] at ha'; rw [hb] at hb'
      cases hop'; cases ha'; cases hb'
      rw [BinaryOp.eval_eq_none_iff.2 ⟨hdiv, hzero⟩] at heval
      cases heval
    | _ hop' => rw [hop] at hop'; cases hop'
  | load hop ha hout =>
    cases hr with
    | ldm _ ha' _ hcell' => rw [ha] at ha'; cases ha'; exact hcell hout hcell'
    | _ hop' => rw [hop] at hop'; cases hop'
  | store hop ha hdst hout =>
    cases hr with
    | stm _ ha' hdst' hcell' =>
      rw [ha] at ha'; rw [hdst] at hdst'
      cases ha'; cases hdst'
      exact hcell hout hcell'
    | _ hop' => rw [hop] at hop'; cases hop'

/-- A cell is no channel, so it does not matter whether it has been read. -/
lemma read_cell_eq (hl : s.Laid) {address : Value} {cell : OperandId} (h : s.Steady t)
    (hcell : t.memoryCell address = .ok cell) : (t.read cell).2 = t := by
  rw [Store.read_of_not_input ((hl.steady h).kind_memoryCell hcell).1.not_input]

lemma stops_of_none {slot : Slot} (hu : i.opcode.uses slot = true) (hnone : i.id? slot = none)
    (hreads : s.Laid → t = s.readAll (i.idsIn (i.opcode.sources.takeWhile (· ≠ slot)))) :
    i.Stops s (.missingOperand i slot) t :=
  ⟨.inl ⟨slot, hu, hnone, rfl⟩, hreads⟩

/-- An instruction that fails to find out its effect is stopped. -/
lemma stops_of_effect (h : i.effect s = .error f t) : i.Stops s f t := by
  unfold effect at h
  -- the first part that fails ends the computation, and what was read before it stays read
  cases hop : i.opcode with
  | binary op =>
    have hsources : i.opcode.sources = [.a, .b] := by rw [hop]; rfl
    have hu : ∀ slot, i.opcode.uses slot = true := fun slot => by rw [hop]; rfl
    rw [hop] at h
    rcases bind_operand_error h with ⟨hnone, rfl, rfl⟩ | ⟨a, ha, h⟩
    · exact stops_of_none (hu .a) hnone fun _ => by simp [hsources, idsIn]
    rcases bind_operand_error (bind_read_error h) with ⟨hnone, rfl, rfl⟩ | ⟨b, hb, h⟩
    · exact stops_of_none (hu .b) hnone fun _ => by simp [hsources, idsIn, ha]
    replace h := bind_read_error h
    cases hv : op.eval (s.read a).1 ((s.read a).2.read b).1 with
    | none =>
      rw [hv] at h
      cases h
      obtain ⟨hdiv, hzero⟩ := BinaryOp.eval_eq_none_iff.1 hv
      exact ⟨.inr (.division hop hdiv ha hb hzero), fun _ => by
        simp [readBefore, hsources, idsIn, ha, hb]⟩
    | some v =>
      rw [hv] at h
      rcases bind_operand_error h with ⟨hnone, rfl, rfl⟩ | ⟨dst, hdst, h⟩
      · exact stops_of_none (hu .dst) hnone fun _ => by simp [hsources, idsIn, ha, hb]
      · cases h
  | ldm =>
    have hsources : i.opcode.sources = [.a] := by rw [hop]; rfl
    rw [hop] at h
    rcases bind_operand_error h with ⟨hnone, rfl, rfl⟩ | ⟨a, ha, h⟩
    · exact stops_of_none (by rw [hop]; rfl) hnone fun _ => by simp [hsources, idsIn]
    rcases bind_cell_error (bind_read_error h) with ⟨hout, rfl, rfl⟩ | ⟨cell, hcell, h⟩
    · refine ⟨.inr ?_, fun _ => by simp [readBefore, hsources, idsIn, ha]⟩
      rw [(s.read_steady a).layout]
      exact .load hop ha (by rwa [Store.Outside, (s.read_steady a).layout] at hout)
    rcases bind_operand_error (bind_read_error h) with ⟨hnone, rfl, rfl⟩ | ⟨dst, hdst, h⟩
    · refine stops_of_none (by rw [hop]; rfl) hnone fun hl => ?_
      rw [read_cell_eq hl (s.read_steady a) hcell]
      simp [hsources, idsIn, ha]
    · cases h
  | stm =>
    have hsources : i.opcode.sources = [.a, .dst] := by rw [hop]; rfl
    rw [hop] at h
    rcases bind_operand_error h with ⟨hnone, rfl, rfl⟩ | ⟨a, ha, h⟩
    · exact stops_of_none (by rw [hop]; rfl) hnone fun _ => by simp [hsources, idsIn]
    rcases bind_operand_error (bind_read_error h) with ⟨hnone, rfl, rfl⟩ | ⟨dst, hdst, h⟩
    · exact stops_of_none (by rw [hop]; rfl) hnone fun _ => by simp [hsources, idsIn, ha]
    have hlayout := ((s.read_steady a).trans (Store.read_steady _ dst)).layout
    rcases bind_cell_error (bind_read_error h) with ⟨hout, rfl, rfl⟩ | ⟨cell, -, h⟩
    · refine ⟨.inr ?_, fun _ => by simp [readBefore, hsources, idsIn, ha, hdst]⟩
      rw [hlayout]
      exact .store hop ha hdst (by rwa [Store.Outside, hlayout] at hout)
    · cases h
  | str | bisz =>
    have hsources : i.opcode.sources = [.a] := by rw [hop]; rfl
    rw [hop] at h
    rcases bind_operand_error h with ⟨hnone, rfl, rfl⟩ | ⟨a, ha, h⟩
    · exact stops_of_none (by rw [hop]; rfl) hnone fun _ => by simp [hsources, idsIn]
    rcases bind_operand_error (bind_read_error h) with ⟨hnone, rfl, rfl⟩ | ⟨dst, hdst, h⟩
    · exact stops_of_none (by rw [hop]; rfl) hnone fun _ => by simp [hsources, idsIn, ha]
    · cases h
  | jcc =>
    have hsources : i.opcode.sources = [.a] := by rw [hop]; rfl
    rw [hop] at h
    rcases bind_operand_error h with ⟨hnone, rfl, rfl⟩ | ⟨a, ha, h⟩
    · exact stops_of_none (by rw [hop]; rfl) hnone fun _ => by simp [hsources, idsIn]
    replace h := bind_read_error h
    by_cases hz : (s.read a).1 = 0
    · simp only [hz, if_true] at h
      cases h
    · simp only [hz, if_false] at h
      rcases bind_operand_error h with ⟨hnone, rfl, rfl⟩ | ⟨dst, hdst, h⟩
      · exact stops_of_none (by rw [hop]; rfl) hnone fun _ => by simp [hsources, idsIn, ha]
      · cases bind_read_error h
  | undef =>
    have hsources : i.opcode.sources = [] := by rw [hop]; rfl
    rw [hop] at h
    rcases bind_operand_error h with ⟨hnone, rfl, rfl⟩ | ⟨dst, hdst, h⟩
    · exact stops_of_none (by rw [hop]; rfl) hnone fun _ => by simp [hsources, idsIn]
    · cases h
  | unkn | nop =>
    rw [hop] at h
    cases h

/-- An instruction that has all its operands fails to find out its effect in one of the ways that
are listed. -/
lemma fails_of_effect (hc : i.Complete s) (h : i.effect s = .error f t) : i.Fails s f := by
  rcases (stops_of_effect h).cause with ⟨slot, hu, hnone, -⟩ | hfails
  · obtain ⟨id, hid⟩ := hc.exists_id slot hu
    rw [hnone] at hid
    cases hid
  · exact hfails

lemma perform_ok (h : ∀ target v, e = .write target v → (s.operand target).isWritable = true) :
    ∃ flow u, perform e s = .ok flow u := by
  cases e with
  | write target v =>
    have hw := h target v rfl
    have hwrite : ∃ u, s.write target v = .ok u := by
      unfold Operand.isWritable at hw
      unfold Store.write
      cases hk : (s.operand target).kind with
      | register | memory | output => exact ⟨_, rfl⟩
      | constant | input => rw [hk] at hw; cases hw
    obtain ⟨u, hu⟩ := hwrite
    refine ⟨.next, u, ?_⟩
    show (Exec.write target v >>= fun _ => pure Flow.next : Exec Flow) s = _
    simp only [bind, EStateM.bind, write_eq, hu]
    rfl
  | jump | idle | halt => exact ⟨_, _, rfl⟩

lemma Reads.target_writable (h : i.Reads s e t) (hl : s.Laid) (hc : i.Complete s)
    {target : OperandId} {v : Value} (he : e = .write target v) :
    (t.operand target).isWritable = true := by
  rw [Operand.isWritable, h.steady.kind]
  cases h with
  | binary hop _ _ hdst | ldm hop _ hdst | str hop _ hdst | bisz hop _ hdst | undef hop hdst =>
    cases he
    exact hc.writable (by rw [hop]; rfl) _ hdst
  | stm _ _ _ hcell =>
    cases he
    rw [(hl.kind_memoryCell hcell).2]
  | pass | jump | nop | unkn => cases he

lemma execute_error_iff (hl : s.Laid) (hc : i.Complete s) :
    (∃ u, i.execute s = .error f u) ↔ i.Fails s f := by
  have hexecute : i.execute s = (i.effect >>= perform) s := rfl
  cases heff : i.effect s with
  | error f' u =>
    have hfails := fails_of_effect hc heff
    simp only [hexecute, bind, EStateM.bind, heff, EStateM.Result.error.injEq]
    constructor
    · rintro ⟨_, rfl, -⟩
      exact hfails
    · intro h
      exact ⟨u, hfails.unique h, rfl⟩
  | ok e u =>
    have hreads := reads_of_effect heff
    obtain ⟨flow, w, hperf⟩ := perform_ok fun target v => hreads.target_writable hl hc
    simp only [hexecute, bind, EStateM.bind, heff, hperf, reduceCtorEq, exists_false, false_iff]
    exact fun h => h.not_reads hreads

end Instruction

end Lineage
