import Lineage.Operand
import Lineage.Channel
import Lineage.Text.Quoted

/-!
The store of a machine: its operands, and the traffic on its channels.

The operands lie one after the other in a table: the program counter, the declared registers, the
memory cells, the input channels, the output channels, and then the constants in the order in which
they were interned. So the place of an operand follows from the layout alone, and interning moves
none of them. No tables from names and addresses to operands are kept beside it; such tables would
give the same answers.
-/

namespace Lineage

open Text

/-- How many operands of each kind a machine has. -/
structure Layout where
  registers : List String := []
  memorySize : Nat := 0
  inputs : Nat := 0
  outputs : Nat := 0
deriving DecidableEq

/-- The name of the program counter. -/
def pcName : String := "PC"

namespace Layout

def registerNames (l : Layout) : List String := pcName :: l.registers

def memoryBase (l : Layout) : OperandId := l.registerNames.length

def inputBase (l : Layout) : OperandId := l.memoryBase + l.memorySize

def outputBase (l : Layout) : OperandId := l.inputBase + l.inputs

end Layout

/-- What a machine is built from. Memory cells without given contents start at 0. -/
structure Config extends Layout where
  memory : List Value := []
  source : Source := Source.zero

inductive ConfigError
  | memoryContents (contents size : Nat)
  | reservedRegister (name : String)
  | duplicateRegister (name : String)
deriving DecidableEq

def ConfigError.message : ConfigError → String
  | .memoryContents contents size =>
    s!"initial memory contents ({contents} cells) exceed memory size {size}"
  | .reservedRegister name => s!"register name {quote name} is reserved"
  | .duplicateRegister name => s!"register {quote name} is declared more than once"

/-- An operand that cannot be reached or not be written. -/
inductive AccessError
  | unknownRegister (name : String)
  | memoryOutOfRange (address : Value) (size : Nat)
  | inputOutOfRange (channel count : Nat)
  | outputOutOfRange (channel count : Nat)
  | readOnly (name : String)
deriving DecidableEq

def AccessError.message : AccessError → String
  | .unknownRegister name => s!"unknown register {quote name}"
  | .memoryOutOfRange address size =>
    s!"memory address {Value.text address} is outside memory of size {size}"
  | .inputOutOfRange channel count =>
    s!"input channel {channel} is not configured, {count} available"
  | .outputOutOfRange channel count =>
    s!"output channel {channel} is not configured, {count} available"
  | .readOnly name => s!"operand {name} is read-only"

structure Store where
  layout : Layout
  operands : Array Operand
  source : Source
  /-- The calls of the input source, latest first. -/
  reads : List Read := []
  /-- The values written to output channels, latest first. -/
  emitted : List Emission := []

namespace Config

/-- Refuses a register that is called like the program counter or like one before it. -/
def checkRegisters (seen : List String) : List String → Except ConfigError Unit
  | [] => .ok ()
  | name :: rest =>
    if name = pcName then .error (.reservedRegister name)
    else if name ∈ seen then .error (.duplicateRegister name)
    else checkRegisters (name :: seen) rest

def initialOperands (c : Config) : List Operand :=
  c.registerNames.map (fun name => { kind := .register name }) ++
    (List.range c.memorySize).map (fun n => { kind := .memory n, value := c.memory.getD n 0 }) ++
    (List.range c.inputs).map (fun n => { kind := .input n }) ++
    (List.range c.outputs).map (fun n => { kind := .output n })

def build (c : Config) : Except ConfigError Store :=
  if c.memorySize < c.memory.length then .error (.memoryContents c.memory.length c.memorySize)
  else
    (checkRegisters [] c.registers).map fun _ =>
      { layout := c.toLayout, operands := c.initialOperands.toArray, source := c.source }

end Config

namespace Store

def pc : OperandId := 0

def operand (s : Store) (id : OperandId) : Operand := s.operands.getD id default

def pcValue (s : Store) : Value := (s.operand pc).value

def modify (s : Store) (id : OperandId) (f : Operand → Operand) : Store :=
  { s with operands := s.operands.modify id f }

theorem operand_modify (s : Store) (id : OperandId) (f : Operand → Operand) (j : OperandId) :
    (s.modify id f).operand j =
      if id = j ∧ j < s.operands.size then f (s.operand j) else s.operand j := by
  simp only [operand, modify, Array.getD_eq_getD_getElem?, Array.getElem?_modify]
  by_cases h : id = j <;> by_cases hj : j < s.operands.size <;> simp [h, hj]

/-! ### Finding operands -/

def register (s : Store) (name : String) : Except AccessError OperandId :=
  match s.layout.registerNames.idxOf? name with
  | some id => .ok id
  | none => .error (.unknownRegister name)

def memoryCell (s : Store) (address : Value) : Except AccessError OperandId :=
  if 0 ≤ address.toInt ∧ address.toInt < s.layout.memorySize then
    .ok (s.layout.memoryBase + address.toInt.toNat)
  else .error (.memoryOutOfRange address s.layout.memorySize)

def input (s : Store) (channel : Nat) : Except AccessError OperandId :=
  if channel < s.layout.inputs then .ok (s.layout.inputBase + channel)
  else .error (.inputOutOfRange channel s.layout.inputs)

def output (s : Store) (channel : Nat) : Except AccessError OperandId :=
  if channel < s.layout.outputs then .ok (s.layout.outputBase + channel)
  else .error (.outputOutOfRange channel s.layout.outputs)

/-- The operand of a constant, made when the constant is first used. -/
def intern (s : Store) (v : Value) : OperandId × Store :=
  match s.operands.findIdx? (·.kind = .constant v) with
  | some id => (id, s)
  | none =>
    let o : Operand := { kind := .constant v, value := v }
    (s.operands.size, { s with operands := s.operands.push o })

/-! ### Reading and writing -/

/-- Calls the input source. -/
def consult (s : Store) (channel : Nat) (peek : Bool) : Value × Store :=
  let v := s.source s.reads channel peek
  (v, { s with reads := ⟨channel, peek, v⟩ :: s.reads })

/-- Reads an operand. An input channel gives its next value, which no derivation is bound to. -/
def read (s : Store) (id : OperandId) : Value × Store :=
  match (s.operand id).kind with
  | .input channel =>
    let (v, s) := s.consult channel false
    (v, s.modify id fun o => { o with value := v, node := none })
  | _ => ((s.operand id).value, s)

/-- Reads an operand without consuming input. -/
def peek (s : Store) (id : OperandId) : Value × Store :=
  match (s.operand id).kind with
  | .input channel => s.consult channel true
  | _ => ((s.operand id).value, s)

/-- Writes an operand. What is written to an output channel is emitted. -/
def write (s : Store) (id : OperandId) (v : Value) : Except AccessError Store :=
  match (s.operand id).kind with
  | .register _ | .memory _ => .ok (s.modify id fun o => { o with value := v })
  | .output channel =>
    let s := s.modify id fun o => { o with value := v, written := true }
    .ok { s with emitted := ⟨channel, v⟩ :: s.emitted }
  | .constant _ | .input _ => .error (.readOnly (s.operand id).name)

def setPc (s : Store) (v : Value) : Store := s.modify pc fun o => { o with value := v }

/-! ### Derivations bound to operands -/

def bind (s : Store) (id : OperandId) (node : NodeId) : Store :=
  s.modify id fun o => { o with node := some node }

def unbind (s : Store) (id : OperandId) : Store := s.modify id fun o => { o with node := none }

def unbindAll (s : Store) : Store :=
  { s with operands := s.operands.map fun o => { o with node := none } }

/-! ### Snapshots -/

/-- The values of all operands but the constants, by name and in the order of the names. -/
abbrev Snapshot := List (String × Value)

/-- Puts a value under a name, in place of one that is there already. -/
def Snapshot.insert (name : String) (v : Value) : Snapshot → Snapshot
  | [] => [(name, v)]
  | e :: rest =>
    if name < e.1 then (name, v) :: e :: rest
    else if name = e.1 then (name, v) :: rest
    else e :: insert name v rest

def snapshot (s : Store) : Snapshot :=
  s.operands.toList.foldl
    (fun d o => if o.kind.isConstant then d else Snapshot.insert o.name o.value d) []

end Store

end Lineage
