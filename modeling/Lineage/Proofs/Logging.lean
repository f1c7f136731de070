import Lineage.Proofs.Derivation.Branching
import Lineage.Proofs.Store.Snapshot

/-!
A trace is the run.

The item of a step is put together at four moments, and what a step that fails has left of it is
thrown away at the next fetch. So a trace has one item for every step that succeeds, in order, and
nothing of the others, whatever else is done with the machine.
-/

namespace Lineage

variable {s t : Store}

/-! ### Halting -/

namespace Instruction

variable {i : Instruction} {e : Effect}

lemma Reads.halt_iff (h : i.Reads s e t) : e = .halt ↔ i.opcode = .unkn := by
  cases h with
  | binary hop | ldm hop | stm hop | str hop | bisz hop | pass hop | jump hop | undef hop
  | nop hop | unkn hop => simp [hop]

lemma halt_iff_of_execute {flow : Flow} (h : i.execute s = .ok flow t) :
    flow = .halt ↔ i.opcode = .unkn := by
  obtain ⟨e, u, heff, hperf⟩ := bind_ok h
  rw [(follows_of_perform hperf).2, (reads_of_effect heff).halt_iff]

end Instruction

/-! ### The program counter in a snapshot -/

lemma lookup_of_forall {l : List (String × Value)} {name : String} {v : Value}
    (h : (name, v) ∈ l) (hall : ∀ w, (name, w) ∈ l → w = v) : l.lookup name = some v := by
  cases hlookup : l.lookup name with
  | none => simpa using List.lookup_eq_none_iff.1 hlookup _ h
  | some w =>
    obtain ⟨before, behind, rfl, -⟩ := List.lookup_eq_some_iff.1 hlookup
    rw [hall w (List.mem_append_right _ List.mem_cons_self)]

namespace Store

lemma Laid.mem_entries_pc (h : s.Laid) {v : Value} :
    (pcName, v) ∈ s.entries ↔ v = s.pcValue := by
  have hoperand : ∀ (id : OperandId) (hid : id < s.operands.size),
      s.operand id = s.operands[id] := fun id hid => by
    rw [operand, Array.getD_eq_getD_getElem?, Array.getElem?_eq_getElem hid, Option.getD_some]
  constructor
  · intro hmem
    obtain ⟨o, ho, heq⟩ := List.mem_map.1 hmem
    obtain ⟨id, hid, rfl⟩ := List.mem_iff_getElem.1 (List.mem_filter.1 ho).1
    rw [Array.length_toList] at hid
    rw [Array.getElem_toList, ← hoperand id hid, Prod.mk.injEq] at heq
    rw [← heq.2, h.eq_pc_of_name hid heq.1, pcValue]
  · rintro rfl
    have hlt : pc < s.operands.size := h.kind_pc.1
    have hmem : s.operand pc ∈ s.operands.toList := by
      rw [hoperand pc hlt]
      exact Array.mem_toList_iff.2 (Array.getElem_mem hlt)
    refine List.mem_map.2 ⟨s.operand pc, List.mem_filter.2 ⟨hmem, ?_⟩, Prod.ext h.name_pc rfl⟩
    rw [h.kind_pc.2]
    rfl

/-- The program counter shows in a snapshot, whatever the registers are called. -/
lemma Laid.lookup_pc (h : s.Laid) : s.snapshot.lookup pcName = some s.pcValue := by
  have hmem : ∀ v, (pcName, v) ∈ s.snapshot ↔ v = s.pcValue := by
    intro v
    have hentries : s.entries.reverse.lookup pcName = some s.pcValue :=
      lookup_of_forall (List.mem_reverse.2 (h.mem_entries_pc.2 rfl))
        fun w hw => h.mem_entries_pc.1 (List.mem_reverse.1 hw)
    rw [s.snapshot_eq_ofEntries, Snapshot.mem_ofEntries, hentries, Option.some_inj, eq_comm]
  exact lookup_of_forall ((hmem _).2 rfl) fun w hw => (hmem w).1 hw

end Store

/-! ### The log of a run -/

namespace Machine

section Log

variable {ω : Type} [Observer ω]

/-- The item of the next step, if it succeeds. -/
def item (m : Machine ω) (running : Bool) : TraceItem where
  pc := m.store.pcValue
  instruction := m.next.text
  running
  before := m.store.snapshot
  after := m.step.2.store.snapshot

def logged (m : Machine ω) : List TraceItem :=
  match m.step.1 with
  | .ok running => [m.item running]
  | .error _ => []

def recorded (m : Machine ω) : Use → List TraceItem
  | .step => m.logged
  | _ => []

/-- One item for every step that succeeds. -/
def log (m : Machine ω) : List Use → List TraceItem
  | [] => []
  | u :: us => m.recorded u ++ (m.use u).log us

end Log

/-- The machine with nobody watching. -/
def unobserved {ω : Type} (m : Machine ω) : Machine Unit :=
  { store := m.store, program := m.program, observer := (), steps := m.steps }

lemma unobserved_step (m : Machine Trace) :
    m.unobserved.step = (m.step.1, m.step.2.unobserved) := by
  cases hexec : m.next.execute m.store with
  | error e u =>
    have hplain : m.unobserved.next.execute m.unobserved.told.2 = .error e u := hexec
    have htraced : m.next.execute m.told.2 = .error e u := hexec
    rw [step_of_error hplain, step_of_error htraced]
    rfl
  | ok flow u =>
    have hplain : m.unobserved.next.execute m.unobserved.told.2 = .ok flow u := hexec
    have htraced : m.next.execute m.told.2 = .ok flow u := hexec
    rw [step_of_ok hplain, step_of_ok htraced]
    rfl

lemma items_step (m : Machine Trace) :
    m.step.2.observer.items.toList = m.observer.items.toList ++ m.logged ∧
      m.step.2.steps = m.steps + m.logged.length := by
  cases hexec : m.next.execute m.store with
  | error e u =>
    have htraced : m.next.execute m.told.2 = .error e u := hexec
    simp only [logged, step_of_error htraced]
    exact ⟨(List.append_nil _).symm, rfl⟩
  | ok flow u =>
    have htraced : m.next.execute m.told.2 = .ok flow u := hexec
    simp only [logged, item, step_of_ok htraced]
    exact ⟨Array.toList_push, rfl⟩

/-- What is done with the machine changes its trace by what it records at most. -/
lemma items_use (m : Machine Trace) (x : Use) :
    (m.use x).observer.items.toList = m.observer.items.toList ++ m.recorded x ∧
      (m.use x).steps = m.steps + (m.recorded x).length := by
  cases x with
  | step => exact m.items_step
  | constant | get | peek | decode | load => exact ⟨(List.append_nil _).symm, rfl⟩
  | set id v =>
    rw [use]
    cases m.store.write id v <;> exact ⟨(List.append_nil _).symm, rfl⟩
  | loadText program =>
    rw [use, loadText]
    cases Lineage.decode program m.store <;> exact ⟨(List.append_nil _).symm, rfl⟩

lemma unobserved_use (m : Machine Trace) (x : Use) :
    m.unobserved.use x = (m.use x).unobserved := by
  cases x with
  | step => exact congrArg Prod.snd m.unobserved_step
  | constant | get | peek | decode | load => rfl
  | set id v =>
    simp only [use]
    cases hw : m.store.write id v <;> simp [unobserved, hw]
  | loadText program =>
    simp only [use, loadText]
    cases hd : Lineage.decode program m.store <;> simp [unobserved, hd]

lemma unobserved_logged (m : Machine Trace) : m.unobserved.logged = m.logged := by
  simp only [logged, item, unobserved_step]
  rfl

lemma unobserved_recorded (m : Machine Trace) (x : Use) :
    m.unobserved.recorded x = m.recorded x := by
  cases x with
  | step => exact m.unobserved_logged
  | _ => rfl

/-- A trace is the log of the machine that nobody watches. -/
lemma items_uses (m : Machine Trace) (us : List Use) :
    (m.uses us).observer.items.toList = m.observer.items.toList ++ m.unobserved.log us ∧
      (m.uses us).steps = m.steps + (m.unobserved.log us).length ∧
      m.unobserved.uses us = (m.uses us).unobserved := by
  induction us generalizing m with
  | nil => exact ⟨(List.append_nil _).symm, rfl, rfl⟩
  | cons x us ih =>
    obtain ⟨hitems, hsteps⟩ := m.items_use x
    obtain ⟨hitems', hsteps', huses⟩ := ih (m.use x)
    have hlog : m.unobserved.log (x :: us) = m.recorded x ++ (m.use x).unobserved.log us := by
      rw [log, unobserved_use, unobserved_recorded]
    refine ⟨?_, ?_, ?_⟩
    · rw [hlog, ← List.append_assoc, ← hitems]
      exact hitems'
    · rw [hlog, List.length_append, ← Nat.add_assoc, ← hsteps]
      exact hsteps'
    · rw [uses, List.foldl_cons, unobserved_use]
      exact huses

lemma item_running (m : Machine Trace) {running : Bool} (h : m.step.1 = .ok running) :
    running = false ↔ m.next.opcode = .unkn := by
  cases hexec : m.next.execute m.told.2 with
  | error e u =>
    rw [step_of_error hexec] at h
    cases h
  | ok flow u =>
    rw [step_of_ok hexec] at h
    cases h
    rw [← Instruction.halt_iff_of_execute hexec]
    simp

/-- What a failing step has left in a trace does not get into the next item. -/
lemma items_step_again (m : Machine Trace) (l : Trace) (h : l.items = m.observer.items) :
    ({ m with observer := l } : Machine Trace).step.2.observer.items = m.step.2.observer.items := by
  have hlogged : ({ m with observer := l } : Machine Trace).logged = m.logged := by
    rw [← unobserved_logged, ← m.unobserved_logged]
    rfl
  rw [← Array.toList_inj, (items_step _).1, (items_step m).1, hlogged, h]

/-- **A trace is the run**: whatever is done with a machine that has been built, its trace is the
log of the same machine with nobody watching, and counts its steps. A step that succeeds adds an
item: of the program counter, which the values before the step show too, the instruction of the
program there, whether it is another one than the unknown one, and the values before and behind the
step, the latter of which the next step starts with. A step that fails adds nothing, and changes
nothing of the item of the next step. -/
theorem traces_are_runs {c : Config} (hs : c.build = .ok s) (us : List Use) :
    let plain : Machine Unit := { store := s, observer := () }
    let m := ({ store := s, observer := {} } : Machine Trace).uses us
    let items := m.observer.items.toList
    (items = plain.log us ∧ items.length = m.steps ∧ m.unobserved = plain.uses us) ∧
      (∀ running, m.step.1 = .ok running → ∃ item,
        m.step.2.observer.items.toList = items ++ [item] ∧
        item.pc = m.store.pcValue ∧ item.before.lookup pcName = some item.pc ∧
        item.instruction = (instructionAt m.program item.pc).text ∧
        (item.pc < 0 ∨ (m.program.length : Int) ≤ item.pc.toInt →
          item.instruction = "UNKN , ,") ∧
        item.running = running ∧
        (item.running = false ↔ (instructionAt m.program item.pc).opcode = .unkn) ∧
        item.before = m.store.snapshot ∧ item.after = m.step.2.store.snapshot ∧
        ∀ running', m.step.2.step.1 = .ok running' → ∃ item',
          m.step.2.step.2.observer.items.toList = items ++ [item, item'] ∧
          item'.before = item.after) ∧
      ∀ e, m.step.1 = .error e → m.step.2.observer.items.toList = items ∧
        ({ m.step.2 with observer := m.observer } : Machine Trace).step.2.observer.items =
          m.step.2.step.2.observer.items := by
  intro plain m items
  obtain ⟨hitems, hsteps, huses⟩ :=
    items_uses { store := s, observer := {} } us
  have hlogged : ∀ (m : Machine Trace) {running : Bool}, m.step.1 = .ok running →
      m.step.2.observer.items.toList = m.observer.items.toList ++ [m.item running] := by
    intro m running h
    rw [m.items_step.1, logged, h]
  have hlaid : m.store.Laid :=
    (uses_kept (m := { store := s, observer := {} }) .trace (Config.tabled_of_build hs) us).2.toLaid
  refine ⟨⟨hitems, ?_, huses.symm⟩, fun running hok => ?_, fun e herror => ?_⟩
  · rw [hsteps, Nat.zero_add]
    exact congrArg List.length hitems
  · refine ⟨m.item running, hlogged m hok, rfl, hlaid.lookup_pc, rfl, fun hout => ?_, rfl,
      m.item_running hok, rfl, rfl, fun running' hok' => ?_⟩
    · show m.next.text = _
      rw [next_of_outside hout]
      rfl
    · refine ⟨m.step.2.item running', ?_, rfl⟩
      rw [hlogged _ hok', hlogged m hok, List.append_assoc]
      rfl
  · have hkept : m.step.2.observer.items.toList = items := by
      rw [m.items_step.1, logged, herror]
      exact List.append_nil _
    exact ⟨hkept, items_step_again _ _ (Array.toList_inj.1 hkept.symm)⟩

/-- A division by zero leaves no item, and the program that is loaded after it starts the log. -/
theorem traces_are_runs_division :
    let c : Config := { registers := ["A"] }
    let s : Store :=
      { layout := c.toLayout, operands := c.initialOperands.toArray, source := c.source }
    let us : List Use := [.loadText "DIV %1, %0, A"]
    let us' : List Use := us ++ [.step, .loadText "STR %4, , A"]
    let m := ({ store := s, observer := {} } : Machine Trace).uses us
    let m' := ({ store := s, observer := {} } : Machine Trace).uses us'
    (c.build = .ok s ∧ m.step.1 = .error (.divisionByZero m.next) ∧ m'.step.1 = .ok true) ∧
      m.step.2.observer.items.toList = [] ∧ ∃ item, m'.step.2.observer.items.toList = [item] ∧
        item.before.lookup "PC" = some item.pc ∧ item.instruction = "STR %4, , A" ∧
        item.running = true := by
  intro c s us us' m m'
  have hbuild : c.build = .ok s := rfl
  have herror : m.step.1 = .error (.divisionByZero m.next) := by decide +kernel
  have hok : m'.step.1 = .ok true := by decide +kernel
  have hnone : m.observer.items.toList = [] := by decide +kernel
  have hnone' : m'.observer.items.toList = [] := by decide +kernel
  have hkept := ((traces_are_runs hbuild us).2.2 _ herror).1
  obtain ⟨item, hitems, hpc, hlookup, htext, -, hrunning, -⟩ :=
    (traces_are_runs hbuild us').2.1 true hok
  refine ⟨⟨hbuild, herror, hok⟩, hkept.trans hnone, item, ?_, hlookup, ?_, hrunning⟩
  · exact hitems.trans (congrArg (· ++ [item]) hnone')
  · rw [htext, hpc]
    decide +kernel

end Machine

end Lineage
