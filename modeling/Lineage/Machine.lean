import Lineage.Instruction.Decode
import Lineage.Instruction.Execute

/-!
The machine: a store, a program, and an observer that is told of every step.

A step fetches the instruction at the program counter, executes it, and advances the program counter
unless the instruction has set it. A step that faults is not counted, and the observer is not told
of its end. A run is a sequence of steps up to a halt, a fault or a limit.
-/

namespace Lineage

/-- What an observer of type `ω` does at the four points of a step. -/
class Observer (ω : Type) where
  /-- The instruction is about to be fetched; sees the program counter. -/
  fetched : ω → Operand → ω := fun o _ => o
  decoded : ω → Instruction → ω := fun o _ => o
  /-- The instruction has had no effect yet. -/
  before : ω → Store → Instruction → ω × Store := fun o s _ => (o, s)
  /-- The instruction has had its effect; `running` tells whether execution may go on. -/
  after : ω → Store → (running : Bool) → ω × Store := fun o s _ => (o, s)

/-- The observer that does nothing. -/
instance : Observer Unit where

/-- Two observers are told one after the other. -/
instance {α β : Type} [Observer α] [Observer β] : Observer (α × β) where
  fetched o pc := (Observer.fetched o.1 pc, Observer.fetched o.2 pc)
  decoded o i := (Observer.decoded o.1 i, Observer.decoded o.2 i)
  before o s i :=
    let (o₁, s) := Observer.before o.1 s i
    let (o₂, s) := Observer.before o.2 s i
    ((o₁, o₂), s)
  after o s running :=
    let (o₁, s) := Observer.after o.1 s running
    let (o₂, s) := Observer.after o.2 s running
    ((o₁, o₂), s)

structure Machine (ω : Type) where
  store : Store
  program : List Instruction := []
  observer : ω
  /-- The number of steps that did not fault. -/
  steps : Nat := 0

namespace Machine

variable {ω : Type}

def load (m : Machine ω) (program : List Instruction) : Machine ω := { m with program }

/-- Decodes a program and loads it. When that fails the old program stays. -/
def loadText (m : Machine ω) (program : String) : Except DecodeError Unit × Machine ω :=
  match decode program m.store with
  | .ok is s => (.ok (), { m with store := s, program := is })
  | .error e s => (.error e, { m with store := s })

/-- The instruction at an address; none of the program outside of it. -/
def instructionAt (program : List Instruction) (address : Value) : Instruction :=
  if address < 0 then .unknown else program.getD address.toInt.toNat .unknown

/-- Leaves the program counter where the next instruction is. -/
def advance (s : Store) : Flow → Store
  | .next => s.setPc (s.pcValue + 1)
  | .jump _ | .halt => s

variable [Observer ω]

/-- Executes one instruction; tells whether execution may go on. -/
def step (m : Machine ω) : Except Fault Bool × Machine ω :=
  let i := instructionAt m.program m.store.pcValue
  let o := Observer.decoded (Observer.fetched m.observer (m.store.operand Store.pc)) i
  let (o, s) := Observer.before o m.store i
  match i.execute s with
  | .error e s => (.error e, { m with store := s, observer := o })
  | .ok flow s =>
    let running := flow != .halt
    let (o, s) := Observer.after o (advance s flow) running
    (.ok running, { m with store := s, observer := o, steps := m.steps + 1 })

/-- Executes at most `n` instructions; tells whether execution may go on. -/
def runFor : Nat → Machine ω → Except Fault Bool × Machine ω
  | 0, m => (.ok true, m)
  | n + 1, m =>
    match m.step with
    | (.ok true, m) => runFor n m
    | r => r

/-- Executes up to the halt, for which `fuel` steps have to do. -/
def runToHalt : Nat → Machine ω → Option (Except Fault Unit) × Machine ω
  | 0, m => (none, m)
  | fuel + 1, m =>
    match m.step with
    | (.ok true, m) => runToHalt fuel m
    | (.ok false, m) => (some (.ok ()), m)
    | (.error e, m) => (some (.error e), m)

/-- Executes up to the halt and tells the number of steps; none when the fuel did not do. -/
def run (fuel : Nat) (m : Machine ω) : Option (Except Fault Nat) × Machine ω :=
  let (r, m') := runToHalt fuel m
  (r.map (·.map fun _ => m'.steps - m.steps), m')

end Machine

end Lineage
