import Lineage.Proofs.Usage
import Mathlib

/-!
Operands found in tables.

A store computes from its layout where an operand is, and searches for a constant. A `Directory`
does neither: it has a table for each kind, which is filled while the operands are made one after
the other, and gets an entry for each constant that is interned. It gives the answers that the store
gives, whatever is done with the machine.
-/

namespace Lineage

/-- Where the operands are. The program counter is one of the registers. -/
structure Directory where
  registers : Std.TreeMap String OperandId
  memory : Array OperandId
  inputs : Array OperandId
  outputs : Array OperandId
  constants : Std.HashMap Value OperandId := ∅

namespace Directory

def register (d : Directory) (name : String) : Except AccessError OperandId :=
  match d.registers[name]? with
  | some id => .ok id
  | none => .error (.unknownRegister name)

def memoryCell (d : Directory) (address : Value) : Except AccessError OperandId :=
  match if 0 ≤ address.toInt then d.memory[address.toInt.toNat]? else none with
  | some id => .ok id
  | none => .error (.memoryOutOfRange address d.memory.size)

def input (d : Directory) (channel : Nat) : Except AccessError OperandId :=
  match d.inputs[channel]? with
  | some id => .ok id
  | none => .error (.inputOutOfRange channel d.inputs.size)

def output (d : Directory) (channel : Nat) : Except AccessError OperandId :=
  match d.outputs[channel]? with
  | some id => .ok id
  | none => .error (.outputOutOfRange channel d.outputs.size)

def locate (d : Directory) : Place → Except AccessError OperandId
  | .register name => d.register name
  | .memory address => d.memoryCell address
  | .input c => d.input c
  | .output c => d.output c

/-- The operand of a constant. If there is none yet, it is made behind the operands there are. -/
def constant (d : Directory) (count : Nat) (v : Value) : OperandId × Directory :=
  match d.constants[v]? with
  | some id => (id, d)
  | none => (count, { d with constants := d.constants.insert v count })

end Directory

/-! ### Making operands -/

namespace Config

def declare (made : Array Operand) (table : Std.TreeMap String OperandId) :
    List String → Except ConfigError (Array Operand × Std.TreeMap String OperandId)
  | [] => .ok (made, table)
  | name :: rest =>
    if name = pcName then .error (.reservedRegister name)
    else if name ∈ table then .error (.duplicateRegister name)
    else declare (made.push { kind := .register name }) (table.insert name made.size) rest

/-- Makes operands, whose numbers are the table for their kind. -/
def lay (made : Array Operand) (table : Array OperandId) :
    List Operand → Array Operand × Array OperandId
  | [] => (made, table)
  | o :: rest => lay (made.push o) (table.push made.size) rest

/-- The operands of a machine, with the tables that they are found in. -/
def equip (c : Config) : Except ConfigError (Array Operand × Directory) :=
  if c.memorySize < c.memory.length then .error (.memoryContents c.memory.length c.memorySize)
  else
    (declare #[{ kind := .register pcName }] (.insert ∅ pcName 0) c.registers).map
      fun (made, registers) =>
        let (made, memory) := lay made #[] ((List.range c.memorySize).map fun n =>
          { kind := .memory n, value := c.memory.getD n 0 })
        let (made, inputs) := lay made #[] ((List.range c.inputs).map fun n =>
          { kind := .input n })
        let (made, outputs) := lay made #[] ((List.range c.outputs).map fun n =>
          { kind := .output n })
        (made, { registers, memory, inputs, outputs })

variable {c : Config} {s : Store} {made : Array Operand} {table : Std.TreeMap String OperandId}
  {seen names : List String}

lemma mem_start (name : String) : name ∈ (.insert ∅ pcName 0 : Std.TreeMap String OperandId) ↔
    name = pcName ∨ name ∈ [] := by
  rw [Std.TreeMap.mem_insert, Std.LawfulEqCmp.compare_eq_iff_eq]
  simp [eq_comm]

lemma mem_insert_iff (hseen : ∀ name, name ∈ table ↔ name = pcName ∨ name ∈ seen) (name : String)
    (id : OperandId) (other : String) :
    other ∈ table.insert name id ↔ other = pcName ∨ other ∈ name :: seen := by
  rw [Std.TreeMap.mem_insert, hseen, List.mem_cons, Std.LawfulEqCmp.compare_eq_iff_eq]
  tauto

/-- The names are refused as the registers of a layout are. -/
lemma declare_error (hseen : ∀ name, name ∈ table ↔ name = pcName ∨ name ∈ seen) {e : ConfigError}
    (h : checkRegisters seen names = .error e) : declare made table names = .error e := by
  induction names generalizing made table seen with
  | nil => cases h
  | cons name rest ih =>
    unfold checkRegisters at h
    unfold declare
    by_cases hpc : name = pcName
    · rw [if_pos hpc] at h ⊢
      cases h
      rfl
    · rw [if_neg hpc] at h ⊢
      by_cases hmem : name ∈ seen
      · rw [if_pos hmem] at h
        cases h
        rw [if_pos ((hseen name).2 (.inr hmem))]
      · rw [if_neg hmem] at h
        rw [if_neg fun hin => ((hseen name).1 hin).elim hpc hmem]
        exact ih (mem_insert_iff hseen name made.size) h

lemma declare_ok (made : Array Operand)
    (hseen : ∀ name, name ∈ table ↔ name = pcName ∨ name ∈ seen)
    (h : checkRegisters seen names = .ok ()) :
    ∃ table', declare made table names =
        .ok (made ++ (names.map fun name => { kind := .register name : Operand }).toArray, table') ∧
      ∀ name, table'[name]? = table[name]?.or ((names.idxOf? name).map (· + made.size)) := by
  induction names generalizing made table seen with
  | nil => exact ⟨table, by simp [declare], by simp⟩
  | cons name rest ih =>
    unfold checkRegisters at h
    unfold declare
    split at h
    · cases h
    · next hpc =>
      split at h
      · cases h
      · next hmem =>
        have hnew : name ∉ table := fun hin => ((hseen name).1 hin).elim hpc hmem
        obtain ⟨table', hdeclare, hfound⟩ := ih (made.push { kind := .register name })
          (mem_insert_iff hseen name made.size) h
        refine ⟨table', ?_, fun other => ?_⟩
        · rw [if_neg hpc, if_neg hnew, hdeclare]
          simp
        · rw [hfound, Std.TreeMap.getElem?_insert, List.idxOf?_cons, Array.size_push]
          by_cases heq : name = other
          · subst heq
            simp [hnew]
          · simp [heq, Nat.add_assoc, Nat.add_comm 1, Function.comp_def]

lemma lay_eq (made : Array Operand) (ids : Array OperandId) (os : List Operand) :
    lay made ids os = (made ++ os.toArray, ids ++ Array.range' made.size os.length) := by
  induction os generalizing made ids with
  | nil => simp [lay]
  | cons o rest ih =>
    rw [lay, ih, List.length_cons, Array.range'_succ]
    simp

end Config

/-! ### Answers -/

namespace Directory

variable {d d' : Directory} {s t : Store} {v : Value}

/-- The tables tell of the operands what the store does. -/
structure Finds (d : Directory) (s : Store) : Prop where
  locate : d.locate = s.locate
  constants : ∀ v, d.constants[v]? = s.operands.findIdx? (·.kind = .constant v)

/-- The second directory is the first with constants added to it. -/
structure Grows (d d' : Directory) : Prop where
  rest : d' = { d with constants := d'.constants }
  constants : ∀ {v : Value} {id}, d.constants[v]? = some id → d'.constants[v]? = some id

namespace Grows

lemma refl (d : Directory) : d.Grows d := ⟨rfl, id⟩

lemma trans {d'' : Directory} (h : d.Grows d') (h' : d'.Grows d'') : d.Grows d'' :=
  ⟨by rw [h'.rest, h.rest], fun hid => h'.constants (h.constants hid)⟩

end Grows

lemma constant_grows (d : Directory) (count : Nat) (v : Value) :
    d.Grows (d.constant count v).2 := by
  unfold constant
  split
  · exact .refl d
  · next hnone =>
    refine ⟨rfl, fun {w id} hid => ?_⟩
    have hne : v ≠ w := by
      rintro rfl
      rw [hnone] at hid
      cases hid
    simpa [Std.HashMap.getElem?_insert, hne] using hid

lemma locate_constant (d : Directory) (count : Nat) (v : Value) :
    (d.constant count v).2.locate = d.locate := by
  have hrest := (d.constant_grows count v).rest
  rw [hrest]
  rfl

namespace Finds

/-- Only the kinds of the operands come into it. -/
lemma sameFrame (h : d.Finds s) (hf : s.SameFrame t) : d.Finds t where
  locate := by rw [h.locate, Store.locate_congr hf.layout]
  constants v := by
    have hkinds : ∀ u : Store, u.operands.findIdx? (·.kind = .constant v) =
        u.kinds.findIdx? (· = .constant v) := by
      intro u
      rw [Store.kinds, List.findIdx?_map, ← List.findIdx?_toArray]
      rfl
    rw [h.constants, hkinds, hkinds, Store.kinds_congr hf.size hf.kind]

/-- A constant that is interned gets the number that the store gives it. -/
lemma constant (h : d.Finds s) (v : Value) :
    (d.constant s.operands.size v).1 = (s.intern v).1 ∧
      (d.constant s.operands.size v).2.Finds (s.intern v).2 := by
  have hlocate : (d.constant s.operands.size v).2.locate = (s.intern v).2.locate := by
    rw [locate_constant, h.locate, Store.locate_congr (s.intern_interned v).layout]
  revert hlocate
  unfold Directory.constant Store.intern
  rw [h.constants]
  cases hfind : s.operands.findIdx? (·.kind = .constant v) with
  | some id => exact fun _ => ⟨rfl, h⟩
  | none =>
    refine fun hlocate => ⟨rfl, hlocate, fun w => ?_⟩
    rw [Array.findIdx?_push, ← h.constants, Std.HashMap.getElem?_insert]
    by_cases heq : v = w
    · subst heq
      simp [h.constants, hfind]
    · simp [heq]

end Finds

end Directory

/-! ### Building -/

namespace Config

variable {c : Config} {s : Store}

lemma equip_of_error {e : ConfigError} (h : c.build = .error e) : c.equip = .error e := by
  unfold build at h
  unfold equip
  split at h
  · next hmem =>
    cases h
    rw [if_pos hmem]
  · next hmem =>
    cases hc : checkRegisters [] c.registers with
    | ok u => rw [hc] at h; cases h
    | error e' =>
      rw [hc] at h
      cases h
      rw [if_neg hmem, declare_error mem_start hc]
      rfl

/-- The numbers of the operands of a layout, but for the registers, run on from table to table. -/
lemma equip_eq (h : ¬ c.memorySize < c.memory.length) {registers : Std.TreeMap String OperandId}
    (hdeclare : declare #[{ kind := .register pcName }] (.insert ∅ pcName 0) c.registers =
      .ok (#[{ kind := .register pcName }] ++
        (c.registers.map fun name => { kind := .register name : Operand }).toArray, registers)) :
    c.equip = .ok (c.initialOperands.toArray,
      { registers
        memory := Array.range' c.memoryBase c.memorySize
        inputs := Array.range' c.inputBase c.inputs
        outputs := Array.range' c.outputBase c.outputs }) := by
  unfold equip
  rw [if_neg h, hdeclare]
  simp [Except.map, lay_eq, initialOperands, Layout.registerNames, Layout.memoryBase,
    Layout.inputBase, Layout.outputBase, Nat.add_assoc, Nat.add_comm, Nat.add_left_comm]

lemma equip_of_ok (h : c.build = .ok s) : ∃ d, c.equip = .ok (s.operands, d) ∧ d.Finds s := by
  unfold build at h
  split at h
  · cases h
  · next hmem =>
    obtain ⟨⟨⟩, hc, rfl⟩ := ok_of_map h
    obtain ⟨registers, hdeclare, hfound⟩ := declare_ok #[{ kind := .register pcName }]
      mem_start hc
    refine ⟨_, equip_eq hmem hdeclare, ?_, fun v => ?_⟩
    · -- the tables hold the numbers that the layout computes
      funext p
      cases p with
      | register name =>
        have hname : registers[name]? = c.registerNames.idxOf? name := by
          rw [hfound, Std.TreeMap.getElem?_insert, Layout.registerNames, List.idxOf?_cons]
          by_cases heq : pcName = name <;> simp [heq]
        simp only [Directory.locate, Directory.register, Store.locate, Store.register, hname]
        cases c.registerNames.idxOf? name <;> rfl
      | memory address =>
        simp only [Directory.locate, Directory.memoryCell, Store.locate, Store.memoryCell,
          Array.getElem?_range', Array.size_range']
        by_cases hneg : 0 ≤ address.toInt
        · by_cases hlt : address.toInt < c.memorySize
          · have hnat : address.toInt.toNat < c.memorySize := by omega
            rw [if_pos hneg, if_pos hnat, if_pos ⟨hneg, hlt⟩, Nat.one_mul]
          · have hnat : ¬ address.toInt.toNat < c.memorySize := by omega
            rw [if_pos hneg, if_neg hnat, if_neg fun h => hlt h.2]
        · rw [if_neg hneg, if_neg fun h => hneg h.1]
      | input n =>
        simp only [Directory.locate, Directory.input, Store.locate, Store.input,
          Array.getElem?_range', Array.size_range']
        by_cases hlt : n < c.inputs <;> simp [hlt]
      | output n =>
        simp only [Directory.locate, Directory.output, Store.locate, Store.output,
          Array.getElem?_range', Array.size_range']
        by_cases hlt : n < c.outputs <;> simp [hlt]
    · rw [Std.HashMap.getElem?_empty]
      refine (Array.findIdx?_eq_none_iff.2 fun o ho => ?_).symm
      have hconst := isConstant_of_mem (List.mem_toArray.1 ho)
      rw [decide_eq_false_iff_not]
      intro hk
      rw [hk] at hconst
      cases hconst

end Config

/-! ### Use -/

variable {ω : Type} [Observer ω]

/-- Tables that grow along with the constants still tell of the operands. -/
lemma Store.interning_found :
    Interning fun s t => ∀ d : Directory, d.Finds s → ∃ d', d.Grows d' ∧ d'.Finds t where
  refl _ d h := ⟨d, .refl d, h⟩
  trans _ _ _ h h' d hd := by
    obtain ⟨d', hgrows, hd'⟩ := h d hd
    obtain ⟨d'', hgrows', hd''⟩ := h' d' hd'
    exact ⟨d'', hgrows.trans hgrows', hd''⟩
  intern s v d hd := ⟨_, d.constant_grows s.operands.size v, (hd.constant v).2⟩

namespace Machine

/-- What is done with a machine changes the operands that there are by interning constants, if at
all. -/
lemma use_related {R : Store → Store → Prop} (hω : Observer.Unobtrusive ω)
    (hR : Store.Interning R) (hframe : ∀ {s t : Store}, s.SameFrame t → R s t) (m : Machine ω)
    (x : Use) : R m.store (m.use x).store := by
  have hdecode : ∀ program, R m.store (resultStore (Lineage.decode program m.store)) := by
    intro program
    have hkeeps := keeps_decode hR program m.store
    cases hd : Lineage.decode program m.store <;> rw [hd] at hkeeps <;> exact hkeeps
  cases x with
  | constant v => exact hR.intern _ v
  | get id => exact hframe (m.store.read_steady id).sameFrame
  | peek id => exact hframe (m.store.peek_peeked id).steady.sameFrame
  | set id v =>
    cases hw : m.store.write id v <;> simp only [use, hw]
    · exact hR.refl _
    · exact hframe (Store.write_sameFrame hw)
  | decode program => exact hdecode program
  | load program => exact hR.refl _
  | loadText program =>
    rw [use, store_loadText]
    exact hdecode program
  | step => exact hframe (sameFrame_step hω m).1

lemma uses_related {R : Store → Store → Prop} (hω : Observer.Unobtrusive ω)
    (hR : Store.Interning R) (hframe : ∀ {s t : Store}, s.SameFrame t → R s t) (m : Machine ω)
    (us : List Use) : R m.store (m.uses us).store := by
  induction us generalizing m with
  | nil => exact hR.refl _
  | cons x us ih => exact hR.trans (use_related hω hR hframe m x) (ih (m.use x))

/-- **Operands are found in tables**: tables that are filled while a machine is made refuse the
layouts that the store refuses and hold the operands that it has. Whatever is done with the machine
afterwards, tables that only constants were added to give the answers of the store. -/
theorem operands_found_in_tables {c : Config} (hω : Observer.Unobtrusive ω) (o : ω) :
    (∀ e, c.build = .error e → c.equip = .error e) ∧
    ∀ s, c.build = .ok s → ∃ d, c.equip = .ok (s.operands, d) ∧ d.Finds s ∧
      ∀ us : List Use, let t := (({ store := s, observer := o } : Machine ω).uses us).store
        ∃ d', d.Grows d' ∧ d'.Finds t ∧
          ∀ v, (d'.constant t.operands.size v).1 = (t.intern v).1 := by
  refine ⟨fun e he => Config.equip_of_error he, fun s hs => ?_⟩
  obtain ⟨d, hequip, hd⟩ := Config.equip_of_ok hs
  refine ⟨d, hequip, hd, fun us => ?_⟩
  obtain ⟨d', hgrows, hd'⟩ := uses_related hω Store.interning_found
    (fun hf d hd => ⟨d, .refl d, hd.sameFrame hf⟩) { store := s, observer := o } us d hd
  exact ⟨d', hgrows, hd', fun v => (hd'.constant v).1⟩

end Machine

end Lineage
