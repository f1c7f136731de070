import Lineage.Proofs.Atomicity
import Lineage.Proofs.Progress

/-!
What a step changes.

A step that succeeds changes its target, the program counter, and the input channels that it reads,
each of them once for every slot that names it. It emits what it writes to an output channel, and
nothing else. A jump has no target but the program counter.
-/

namespace Lineage

variable {s t u w : Store} {i : Instruction} {e : Effect}

def Effect.target? : Effect → Option OperandId
  | .write target _ => some target
  | .jump _ | .idle | .halt => none

/-- What an effect emits: the value, if it is written to an output channel. -/
def Effect.emissions (s : Store) : Effect → List Emission
  | .write target v =>
    match (s.operand target).kind with
    | .output c => [⟨c, v⟩]
    | .register _ | .constant _ | .memory _ | .input _ => []
  | .jump _ | .idle | .halt => []

/-- The operand that an instruction is to write: the one in its destination, or for a store the cell
at the address that is read there. -/
def Instruction.target? (i : Instruction) (s : Store) : Option OperandId :=
  match i.opcode with
  | .binary _ | .ldm | .str | .bisz | .undef => i.id? .dst
  | .stm =>
    match i.id? .a, i.id? .dst with
    | some a, some dst => (s.memoryCell ((s.read a).2.read dst).1).toOption
    | _, _ => none
  | .jcc | .unkn | .nop => none

namespace Instruction

lemma Reads.target?_eq (h : i.Reads s e t) : e.target? = i.target? s := by
  cases h with
  | stm hop ha hdst hcell =>
    simp [target?, Effect.target?, hop, ha, hdst, hcell, Except.toOption]
  | binary hop _ _ hdst | ldm hop _ hdst | str hop _ hdst | bisz hop _ hdst | undef hop hdst =>
    simp [target?, Effect.target?, hop, hdst]
  | pass hop | jump hop | nop hop | unkn hop => simp [target?, Effect.target?, hop]

lemma Reads.target_lt (h : i.Reads s e t) (hl : s.Laid) (hc : i.Complete s) {target : OperandId}
    (he : e.target? = some target) : target < s.operands.size := by
  cases h with
  | stm _ _ _ hcell => cases he; exact (hl.kind_memoryCell hcell).1.2.1
  | binary _ _ _ hdst | ldm _ _ hdst | str _ _ hdst | bisz _ _ hdst | undef _ hdst =>
    cases he
    exact hc.inRange .dst _ hdst
  | pass | jump | nop | unkn => cases he

lemma Reads.readFor_eq (h : i.Reads s e t) (hop : i.opcode ≠ .jcc) :
    i.readFor e = i.idsIn i.opcode.sources := by
  cases h with
  | jump hop' => exact absurd hop' hop
  | _ => rfl

end Instruction

namespace Store

lemma emitted_write {target : OperandId} {v : Value} (h : s.write target v = .ok t) :
    t.emitted = (Effect.write target v).emissions s ++ s.emitted := by
  unfold write at h
  unfold Effect.emissions
  cases hk : (s.operand target).kind with
  | register | memory | output =>
    simp only [hk] at h ⊢
    cases h
    rfl
  | constant | input => simp only [hk, reduceCtorEq] at h

/-- The operands have been read, in order, and then there has been the effect, on the operand that
it writes and on the program counter. -/
structure Affected (s : Store) (ids : List OperandId) (e : Effect) (t : Store) : Prop where
  reads : t.reads = s.source.consume s.reads (s.channels ids)
  emitted : t.emitted = e.emissions s ++ s.emitted
  target : ∀ {target v}, e = .write target v → target ≠ pc → (t.operand target).value = v
  other : ∀ {id}, id ≠ pc → e.target? ≠ some id → (s.IsInput id → id ∉ ids) →
    (t.operand id).bare = (s.operand id).bare
  pcValue : t.pcValue = e.pcAfter s.pcValue

lemma Consumed.affected {ids : List OperandId} (h : s.Consumed ids u) (hl : s.Laid)
    (hkind : ∀ id, (u.operand id).kind = (s.operand id).kind)
    (hlt : ∀ target, e.target? = some target → target < s.operands.size) (hf : u.Follows e w)
    (hemitted : w.emitted = e.emissions u ++ u.emitted) (hsimilar : w.Similar t)
    (hreads : t.reads = w.reads) : s.Affected ids e t where
  reads := by rw [hreads, hf.reads, h.reads]
  emitted := by
    have hemissions : e.emissions u = e.emissions s := by
      simp only [Effect.emissions, hkind]
    have hu : u.emitted = s.emitted := by rw [h.rest]
    rw [hsimilar.emitted, hemitted, hemissions, hu]
  target he hpc := by
    rw [hsimilar.value, hf.target he hpc (h.size ▸ hlt _ (by rw [he]; rfl))]
  other hpc htarget hid := by
    rw [hsimilar.operand, hf.other hpc fun v hv => htarget (by rw [hv]; rfl), h.other hid]
  pcValue := by
    rw [← h.pcValue hl, ← hf.pcValue (h.size ▸ hl.kind_pc.1)]
    exact hsimilar.value pc

end Store

namespace Instruction

lemma emitted_of_perform {flow : Flow} (h : perform e s = .ok flow t) :
    (Machine.advance t flow).emitted = e.emissions s ++ s.emitted := by
  cases e with
  | write target v =>
    obtain ⟨_, u, hw, h⟩ := bind_ok h
    cases h
    rw [write_eq] at hw
    cases hs : s.write target v with
    | ok u' =>
      rw [hs] at hw
      cases hw
      have hemitted := Store.emitted_write hs
      exact hemitted
    | error f => rw [hs] at hw; cases hw
  | jump | idle | halt => cases h; rfl

lemma execute_unkn (h : i.opcode = .unkn) (s : Store) : i.execute s = .ok .halt s := by
  have heff : i.effect = pure .halt := by
    unfold effect
    rw [h]
  unfold execute
  rw [heff]
  rfl

end Instruction

namespace Machine

variable {ω : Type} {m : Machine ω}

/-- Outside the program is the unknown instruction. -/
lemma next_of_outside
    (h : m.store.pcValue < 0 ∨ (m.program.length : Int) ≤ m.store.pcValue.toInt) :
    m.next = .unknown := by
  unfold next instructionAt
  split
  · rfl
  · next hneg =>
    have hle : m.program.length ≤ m.store.pcValue.toInt.toNat := by
      have := h.resolve_left hneg
      omega
    rw [List.getD_eq_getElem?_getD, List.getElem?_eq_none hle]
    rfl

lemma next_unkn (h : m.store.pcValue < 0 ∨ (m.program.length : Int) ≤ m.store.pcValue.toInt) :
    m.next.opcode = .unkn := by
  rw [next_of_outside h]
  rfl

variable [Observer ω]

lemma Decoded.affected_step (h : m.Decoded) (hω : Observer.Discreet ω) {b : Bool}
    (hok : m.step.1 = .ok b) :
    ∃ e u, m.next.Reads m.told.2 e u ∧ m.told.2.Affected (m.next.readFor e) e m.step.2.store ∧
      (b = false ↔ e = .halt) := by
  have hframe : m.store.SameFrame m.told.2 := (hω.before _ _ _).sameFrame
  have hl := hframe.laid h.laid
  cases hexec : m.next.execute m.told.2 with
  | error f t =>
    rw [step_of_error hexec] at hok
    cases hok
  | ok flow t =>
    rw [step_of_ok hexec] at hok ⊢
    cases hok
    obtain ⟨e, u, heff, hperf⟩ := bind_ok hexec
    have hreads := Instruction.reads_of_effect heff
    obtain ⟨hfollows, hhalt⟩ := Instruction.follows_of_perform hperf
    obtain ⟨hsimilar, hsame⟩ := hω.after m.told.1 (advance t flow) (flow != .halt)
    have hconsumed : m.told.2.Consumed (m.next.readFor e) u := by
      rw [hreads.readAll hl]
      exact Store.consumed_readAll hl _
    refine ⟨e, u, hreads, ?_, by simp [← hhalt]⟩
    exact hconsumed.affected hl hreads.steady.kind
      (fun target => hreads.target_lt hl (h.next.congr hframe.size hframe.kind)) hfollows
      (Instruction.emitted_of_perform hperf) hsimilar hsame

/-- A jump of a decoded program goes well: it goes where its destination says if the condition is
not zero, and on if it is, without reading its destination. -/
lemma Decoded.affected_jump (h : m.Decoded) (hω : Observer.Discreet ω)
    (hop : m.next.opcode = .jcc) :
    ∃ a dst, m.next.id? .a = some a ∧ m.next.id? .dst = some dst ∧ m.step.1 = .ok true ∧
      if (m.told.2.read a).1 = 0 then m.told.2.Affected [a] .idle m.step.2.store
      else m.told.2.Affected [a, dst] (.jump ((m.told.2.read a).2.read dst).1) m.step.2.store := by
  have hcomplete := h.next
  obtain ⟨a, ha⟩ := hcomplete.exists_id .a (by rw [hop]; rfl)
  obtain ⟨dst, hdst⟩ := hcomplete.exists_id .dst (by rw [hop]; rfl)
  refine ⟨a, dst, ha, hdst, ?_⟩
  cases hstep : m.step.1 with
  | error f =>
    -- none of the faults is one of a jump
    cases (h.step_error_iff hω.unobtrusive).1 hstep with
    | division hop' | load hop' | store hop' => rw [hop] at hop'; cases hop'
  | ok b =>
    obtain ⟨e, u, hreads, haffected, hhalt⟩ := h.affected_step hω hstep
    cases hreads with
    | pass _ ha' hz =>
      cases ha.symm.trans ha'
      have hids : m.next.readFor .idle = [a] := by
        simp [Instruction.readFor, Instruction.idsIn, hop, Opcode.sources, Opcode.takes, ha]
      rw [hids] at haffected
      have hb : b = true := by simpa using hhalt
      exact ⟨by rw [hb], by rwa [if_pos hz]⟩
    | jump _ ha' hdst' hz =>
      cases ha.symm.trans ha'
      cases hdst.symm.trans hdst'
      have hids : ∀ v, m.next.readFor (.jump v) = [a, dst] := by
        simp [Instruction.readFor, Instruction.idsIn, ha, hdst]
      rw [hids] at haffected
      have hb : b = true := by simpa using hhalt
      exact ⟨by rw [hb], by rwa [if_neg hz]⟩
    | _ hop' => rw [hop] at hop'; cases hop'

lemma halts_of_unkn (hω : Observer.Discreet ω) (hop : m.next.opcode = .unkn) :
    m.step.1 = .ok false ∧ m.told.2.Similar m.step.2.store ∧
      m.step.2.store.reads = m.told.2.reads := by
  rw [step_of_ok (Instruction.execute_unkn hop _)]
  exact ⟨rfl, hω.after _ _ _⟩

/-- **Only the destination changes**: a step of a decoded program reads the operands in the slots of
its operation once, in order, and changes its target and the program counter and no other operand.
What it writes to an output channel is emitted. A jump changes the program counter alone, and where
there is no operation to execute nothing is changed. What holds of the program holds again behind
the step. -/
theorem steps_change_target_only (hω : Observer.Discreet ω) (h : m.Decoded) :
    m.step.2.Decoded ∧ m.store.Peeked m.told.2 ∧
      (∀ b, m.step.1 = .ok b → m.next.opcode ≠ .jcc → m.next.opcode ≠ .unkn →
        b = true ∧ ∃ e u, m.next.Reads m.told.2 e u ∧ e.target? = m.next.target? m.told.2 ∧
          m.told.2.Affected (m.next.idsIn m.next.opcode.sources) e m.step.2.store) ∧
      (m.next.opcode = .jcc → ∃ a dst, m.next.id? .a = some a ∧ m.next.id? .dst = some dst ∧
        m.step.1 = .ok true ∧
          if (m.told.2.read a).1 = 0 then m.told.2.Affected [a] .idle m.step.2.store
          else m.told.2.Affected [a, dst] (.jump ((m.told.2.read a).2.read dst).1)
            m.step.2.store) ∧
      (m.next.opcode = .unkn ∨ m.store.pcValue < 0 ∨
          (m.program.length : Int) ≤ m.store.pcValue.toInt →
        m.step.1 = .ok false ∧ m.step.2.store.reads = m.told.2.reads ∧
          m.step.2.store.emitted = m.store.emitted ∧
          ∀ id, (m.step.2.store.operand id).bare = (m.store.operand id).bare) := by
  have htold : m.store.Peeked m.told.2 := hω.before _ _ _
  refine ⟨h.step hω.unobtrusive, htold, fun b hok hjcc hunkn => ?_, h.affected_jump hω,
    fun hop => ?_⟩
  · obtain ⟨e, u, hreads, haffected, hhalt⟩ := h.affected_step hω hok
    rw [hreads.readFor_eq hjcc] at haffected
    refine ⟨?_, e, u, hreads, hreads.target?_eq, haffected⟩
    rw [← Bool.not_eq_false, hhalt]
    rintro rfl
    cases hreads with
    | unkn hop => exact hunkn hop
  · obtain ⟨hstep, hsimilar, hreads⟩ := halts_of_unkn hω (hop.elim id next_unkn)
    refine ⟨hstep, hreads, hsimilar.emitted.trans htold.emitted, fun id => ?_⟩
    rw [hsimilar.operand, htold.operand]

/-- A store at the address that the program counter holds, of a value from an input channel. -/
theorem steps_change_target_only_store :
    let s : Store :=
      { layout := { memorySize := 2, inputs := 1, outputs := 1 }
        operands := #[{ kind := .register pcName }, { kind := .memory 0 }, { kind := .memory 1 },
          { kind := .input 0 }, { kind := .output 0 }]
        source := .queues [[5, 6]] }
    let m := (loadText { store := s, observer := ({} : Tracker) } "STM IN0, , PC").2
    (Observer.Discreet Tracker ∧ m.Decoded) ∧ m.step.1 = .ok true ∧ m.next.opcode = .stm ∧
      (m.step.2.store.operand 4).bare = (m.store.operand 4).bare ∧
      m.step.2.store.reads = ⟨0, false, 5⟩ :: m.told.2.reads := by
  intro s m
  have hl : s.Laid := ⟨⟨[], rfl⟩, by decide⟩
  have hload : loadText { store := s, observer := ({} : Tracker) } "STM IN0, , PC" = (.ok (), m) :=
    Prod.ext (by decide +kernel) rfl
  have hm : m.Decoded := decoded_of_loadText hl hload
  have hstep : m.step.1 = .ok true := by decide +kernel
  have hop : m.next.opcode = .stm := by decide +kernel
  obtain ⟨-, htold, hother, -, -⟩ := steps_change_target_only .tracker hm
  obtain ⟨-, e, u, -, htarget, haffected⟩ :=
    hother true hstep (by rw [hop]; decide) (by rw [hop]; decide)
  have hcell : m.next.target? m.told.2 = some 1 := by decide +kernel
  refine ⟨⟨.tracker, hm⟩, hstep, hop, ?_, ?_⟩
  · rw [haffected.other (by decide) (by rw [htarget, hcell]; decide) (by decide +kernel),
      htold.operand]
  · rw [haffected.reads]
    decide +kernel

end Machine

end Lineage
