import Lineage.Proofs.Derivation.Fitting
import Lineage.Proofs.Session

/-!
Two runs of one straight-line program.

Without jumps and with literal addresses, what comes in does not decide where a run goes: whatever
the input sources are, the machines are at the same point of the program after every step, write the
same operands, and halt together.
-/

namespace Lineage

variable {g g₁ g₂ : Graph} {t : Tracker} {s : Store} {i : Instruction} {d d₁ d₂ : Decision}
  {e e₁ e₂ : Effect} {m m' m₁ m₁' m₂ m₂' : Machine Tracker}

/-- An instruction that neither names the program counter nor jumps, and has a constant for its
address. -/
structure Instruction.Straight (i : Instruction) (s : Store) : Prop where
  pc : ∀ slot, i.id? slot ≠ some Store.pc
  jcc : i.opcode ≠ .jcc
  ldm : i.opcode = .ldm → ∀ id ∈ i.id? .a, (s.operand id).kind.isConstant = true
  stm : i.opcode = .stm → ∀ id ∈ i.id? .dst, (s.operand id).kind.isConstant = true

instance (i : Instruction) (s : Store) : Decidable (i.Straight s) :=
  decidable_of_iff ((∀ slot, i.id? slot ≠ some Store.pc) ∧ i.opcode ≠ .jcc ∧
      (i.opcode = .ldm → ∀ id ∈ i.id? .a, (s.operand id).kind.isConstant = true) ∧
      (i.opcode = .stm → ∀ id ∈ i.id? .dst, (s.operand id).kind.isConstant = true))
    ⟨fun ⟨hpc, hjcc, hldm, hstm⟩ => ⟨hpc, hjcc, hldm, hstm⟩,
      fun h => ⟨h.pc, h.jcc, h.ldm, h.stm⟩⟩

lemma Instruction.Straight.congr (h : i.Straight s) {s' : Store}
    (hk : ∀ id, (s'.operand id).kind = (s.operand id).kind) : i.Straight s' where
  pc := h.pc
  jcc := h.jcc
  ldm hop id hid := by rw [hk]; exact h.ldm hop id hid
  stm hop id hid := by rw [hk]; exact h.stm hop id hid

lemma Instruction.straight_unknown (s : Store) : unknown.Straight s where
  pc slot := by simp
  jcc := by decide
  ldm hop := by cases hop
  stm hop := by cases hop

/-- The operand and the value that an instruction writes, as far as they can be seen before. -/
def Instruction.writes? (i : Instruction) (s : Store) : Option (OperandId × Value) :=
  match i.opcode, i.id? .a, i.id? .b, i.id? .dst with
  | .binary op, some a, some b, some dst =>
    (op.eval (s.shown a) ((s.read a).2.shown b)).map fun v => (dst, v)
  | .ldm, some a, _, some dst =>
    (s.memoryCell (s.shown a)).toOption.map fun cell => (dst, s.shown cell)
  | .stm, some a, _, some dst =>
    (s.memoryCell ((s.read a).2.shown dst)).toOption.map fun cell => (cell, s.shown a)
  | .str, some a, _, some dst => some (dst, s.shown a)
  | .bisz, some a, _, some dst => some (dst, Value.ofBool (s.shown a = 0))
  | .undef, _, _, some dst => some (dst, 0)
  | _, _, _, _ => none

lemma Planned.writes (h : Planned i t s g d e) :
    (∃ target v, e = .write target v ∧ i.writes? s = some (target, v)) ∨
      ((∀ target v, e ≠ .write target v) ∧
        (i.opcode = .jcc ∨ i.opcode = .nop ∨ i.opcode = .unkn)) := by
  cases h with
  | binary hop ha hb hdst _ hx _ heval =>
    rw [hx.value] at heval
    exact .inl ⟨_, _, rfl, by simp only [Instruction.writes?, hop, ha, hb, hdst, heval,
      Option.map_some]⟩
  | ldm hop ha hdst hcell hx =>
    exact .inl ⟨_, _, rfl, by simp only [Instruction.writes?, hop, ha, hdst, hcell,
      Except.toOption, Option.map_some, hx.value]⟩
  | stm hop ha hdst _ hcell hx =>
    exact .inl ⟨_, _, rfl, by simp only [Instruction.writes?, hop, ha, hdst, hcell,
      Except.toOption, Option.map_some, hx.value]⟩
  | stmAstray hop ha hdst _ hcell =>
    exact .inl ⟨_, _, rfl, by simp only [Instruction.writes?, hop, ha, hdst, hcell,
      Except.toOption, Option.map_some]⟩
  | str hop ha hdst hx =>
    exact .inl ⟨_, _, rfl, by simp only [Instruction.writes?, hop, ha, hdst, hx.value]⟩
  | bisz hop ha hdst hx =>
    exact .inl ⟨_, _, rfl, by simp only [Instruction.writes?, hop, ha, hdst, hx.value]⟩
  | undef hop hdst => exact .inl ⟨_, _, rfl, by simp only [Instruction.writes?, hop, hdst]⟩
  | branch hop _ _ _ _ hidle | known hop hidle => exact .inr ⟨hidle, .inl hop⟩
  | nop hop => exact .inr ⟨nofun, .inr (.inl hop)⟩
  | unkn hop => exact .inr ⟨nofun, .inr (.inr hop)⟩

lemma Planned.write_of (h : Planned i t s g d e) {target : OperandId} {v : Value}
    (hw : i.writes? s = some (target, v)) : e = .write target v := by
  rcases h.writes with ⟨target', v', he, hw'⟩ | ⟨-, hop⟩
  · rw [hw] at hw'
    cases hw'
    exact he
  · rcases hop with hop | hop | hop <;> simp [Instruction.writes?, hop] at hw

namespace Machine

/-- The machines are at the same point of one program. -/
structure Parallel (m₁ m₂ : Machine Tracker) : Prop where
  program : m₂.program = m₁.program
  layout : m₂.store.layout = m₁.store.layout
  size : m₂.store.operands.size = m₁.store.operands.size
  kind : ∀ id, (m₂.store.operand id).kind = (m₁.store.operand id).kind
  pc : m₂.store.pcValue = m₁.store.pcValue

lemma Parallel.next (h : Parallel m₁ m₂) : m₂.next = m₁.next := by
  rw [Machine.next, Machine.next, h.program, h.pc]

lemma parallel_of_loadText {src₁ src₂ : Source} {program : String}
    (h₁ : loadText { store := { s with source := src₁ }, observer := {} } program = (.ok (), m₁))
    (h₂ : loadText { store := { s with source := src₂ }, observer := {} } program = (.ok (), m₂)) :
    m₁.Parallel m₂ ∧ ∀ id, m₂.store.operand id = m₁.store.operand id := by
  have hstart : SameApart { s with source := src₁ } { s with source := src₂ } := rfl
  have h := (InStep.start hstart ({} : Tracker) ({} : Tracker) (R := Eq) rfl).loadText
    sameApart_likeness program
  rw [h₁, h₂] at h
  obtain ⟨-, hstore, hprogram, -⟩ := h
  have hoperand : ∀ id, m₂.store.operand id = m₁.store.operand id := by
    intro id
    rw [hstore]
    rfl
  refine ⟨⟨hprogram, by rw [hstore], by rw [hstore], fun id => by rw [hoperand], ?_⟩, hoperand⟩
  rw [Store.pcValue, hoperand, Store.pcValue]

end Machine

/-! ### Steps -/

namespace Done

/-- A step of straight-line code moves the program counter on by one, except for the halt. -/
lemma straight_pc (h : Done m m' g d e) (hfit : m.Fit) (hstr : m.next.Straight m.store) :
    (m.next.opcode = .unkn ∧ e = .halt ∧ m'.store.pcValue = m.store.pcValue) ∨
      (m.next.opcode ≠ .unkn ∧ e ≠ .halt ∧ m'.store.pcValue = m.store.pcValue + 1) := by
  have hpc := h.pcValue hfit.laid
  have hdst : ∀ {dst}, m.next.id? .dst = some dst → dst ≠ Store.pc := by
    rintro dst hdst rfl
    exact hstr.pc .dst hdst
  have hwrite : ∀ {target v}, e = .write target v → m.next.opcode ≠ .unkn → target ≠ Store.pc →
      (m.next.opcode = .unkn ∧ e = .halt ∧ m'.store.pcValue = m.store.pcValue) ∨
      (m.next.opcode ≠ .unkn ∧ e ≠ .halt ∧ m'.store.pcValue = m.store.pcValue + 1) := by
    rintro target v rfl hop htarget
    rw [Effect.pcAfter, if_neg htarget] at hpc
    exact .inr ⟨hop, by simp, hpc⟩
  have hplanned := h.planned
  cases hplanned with
  | binary hop _ _ hdst' | ldm hop _ hdst' | str hop _ hdst' | bisz hop _ hdst' | undef hop hdst' =>
    exact hwrite rfl (by simp [hop]) (hdst hdst')
  | stm hop _ _ _ hcell | stmAstray hop _ _ _ hcell =>
    exact hwrite rfl (by simp [hop]) (hfit.laid.kind_memoryCell hcell).1.1
  | branch hop | known hop => exact absurd hop hstr.jcc
  | nop hop => exact .inr ⟨by simp [hop], by simp, hpc⟩
  | unkn hop => exact .inl ⟨hop, rfl, hpc⟩

lemma parallel (h₁ : Done m₁ m₁' g₁ d₁ e₁) (h₂ : Done m₂ m₂' g₂ d₂ e₂) (hfit₁ : m₁.Fit)
    (hfit₂ : m₂.Fit) (hp : m₁.Parallel m₂) (hstr : m₁.next.Straight m₁.store) :
    m₁'.Parallel m₂' ∧ (e₁ = .halt ↔ e₂ = .halt) := by
  have hstr₂ : m₂.next.Straight m₂.store := by
    rw [hp.next]
    exact hstr.congr hp.kind
  have hpc : m₂'.store.pcValue = m₁'.store.pcValue ∧ (e₁ = .halt ↔ e₂ = .halt) := by
    rcases h₁.straight_pc hfit₁ hstr with ⟨hop, he, hpc⟩ | ⟨hop, he, hpc⟩
    · rcases h₂.straight_pc hfit₂ hstr₂ with ⟨-, he', hpc'⟩ | ⟨hop', -, -⟩
      · exact ⟨by rw [hpc, hpc', hp.pc], iff_of_true he he'⟩
      · rw [hp.next] at hop'
        exact absurd hop hop'
    · rcases h₂.straight_pc hfit₂ hstr₂ with ⟨hop', -, -⟩ | ⟨-, he', hpc'⟩
      · rw [hp.next] at hop'
        exact absurd hop' hop
      · exact ⟨by rw [hpc, hpc', hp.pc], iff_of_false he he'⟩
  obtain ⟨hprog₁, -, hl₁, hs₁, hk₁⟩ := (Tracked.done h₁).constant
  obtain ⟨hprog₂, -, hl₂, hs₂, hk₂⟩ := (Tracked.done h₂).constant
  exact ⟨⟨by rw [hprog₁, hprog₂, hp.program], by rw [hl₁, hl₂, hp.layout],
    by rw [hs₁, hs₂, hp.size], fun id => by rw [hk₁, hk₂, hp.kind], hpc.1⟩, hpc.2⟩

end Done

/-! ### Runs -/

namespace Machine

lemma Parallel.step (hp : m₁.Parallel m₂) (hfit₁ : m₁.Fit) (hfit₂ : m₂.Fit)
    (hstr : m₁.next.Straight m₁.store) {running₁ running₂ : Bool}
    (h₁ : m₁.step.1 = .ok running₁) (h₂ : m₂.step.1 = .ok running₂) :
    m₁.step.2.Parallel m₂.step.2 ∧ running₁ = running₂ := by
  obtain ⟨g₁, d₁, e₁, hdone₁, hrunning₁⟩ := (h₁ ▸ hfit₁.tracked).done_of_ok
  obtain ⟨g₂, d₂, e₂, hdone₂, hrunning₂⟩ := (h₂ ▸ hfit₂.tracked).done_of_ok
  obtain ⟨hp', hhalt⟩ := hdone₁.parallel hdone₂ hfit₁ hfit₂ hp hstr
  exact ⟨hp', by rw [hrunning₁, hrunning₂, decide_eq_decide.2 (not_congr hhalt)]⟩

section Runs

variable {k₁ k₂ : Nat}

lemma Parallel.after (hp : m₁.Parallel m₂) (hfit₁ : m₁.Fit) (hfit₂ : m₂.Fit)
    (hstr : ∀ n, (m₁.after n).next.Straight (m₁.after n).store) (h₁ : m₁.HaltsAfter k₁)
    (h₂ : m₂.HaltsAfter k₂) {j : Nat} (hj₁ : j ≤ k₁ + 1) (hj₂ : j ≤ k₂ + 1) :
    (m₁.after j).Parallel (m₂.after j) := by
  induction j with
  | zero => exact hp
  | succ j ih =>
    have hj₁ : j ≤ k₁ := Nat.le_of_succ_le_succ hj₁
    have hj₂ : j ≤ k₂ := Nat.le_of_succ_le_succ hj₂
    exact ((ih (by omega) (by omega)).step (hfit₁.after j) (hfit₂.after j) (hstr j)
      (h₁.running hj₁) (h₂.running hj₂)).1

lemma Parallel.halts (hp : m₁.Parallel m₂) (hfit₁ : m₁.Fit) (hfit₂ : m₂.Fit)
    (hstr : ∀ n, (m₁.after n).next.Straight (m₁.after n).store) (h₁ : m₁.HaltsAfter k₁)
    (h₂ : m₂.HaltsAfter k₂) : k₁ = k₂ := by
  -- where the first of them halts, the other one does too
  have hboth : ∀ {j}, j ≤ k₁ → j ≤ k₂ → decide (j < k₁) = decide (j < k₂) := by
    intro j hj₁ hj₂
    exact ((hp.after hfit₁ hfit₂ hstr h₁ h₂ (by omega) (by omega)).step (hfit₁.after j)
      (hfit₂.after j) (hstr j) (h₁.running hj₁) (h₂.running hj₂)).2
  rcases Nat.lt_trichotomy k₁ k₂ with hlt | heq | hgt
  · have hsame := hboth (Nat.le_refl k₁) (Nat.le_of_lt hlt)
    simp [hlt] at hsame
  · exact heq
  · have hsame := hboth (Nat.le_of_lt hgt) (Nat.le_refl k₂)
    simp [hgt] at hsame

end Runs

end Machine

end Lineage
