import LS8.Device
import LS8.Image
import LS8.Instruction
import LS8.Profile

/-!
# The machine

A machine is its memory, its registers, the program counter and whether it is
running, together with what can be observed of its past: the number of
instructions it has executed, their profile if one is kept, and what it has
written to its output device.

`Machine.step` executes one instruction. A fault stops the machine where it
stands: the program counter still names the instruction, and what the instruction
had already changed stays changed.
-/

namespace LS8

/-- Whether a machine is executing instructions. -/
inductive Status where
  | stopped
  | running
deriving DecidableEq, Repr, Inhabited

/-- A machine. The program counter is any number; only addresses below 256 hold
instructions. -/
structure Machine where
  memory : Memory
  registers : Registers
  pc : Nat
  status : Status
  /-- How many instructions were decoded and begun. -/
  steps : Nat
  profile : Option Profile
  device : Device
deriving DecidableEq, Repr

namespace Machine

/-- A machine at power-on. -/
def initial (device : Device) (profiling : Bool) : Machine where
  memory := .zero
  registers := .initial
  pc := 0
  status := .stopped
  steps := 0
  profile := if profiling then some .empty else none
  device := device

instance : Inhabited Machine := ⟨initial {} false⟩

/-- Copies an image to the bottom of memory; nothing else changes. -/
def load (m : Machine) (image : Image) : Outcome Machine :=
  let loaded := m.memory.load image.bytes
  ⟨{ m with memory := loaded.state }, loaded.fault⟩

/-- Starts the machine without executing anything. -/
def start (m : Machine) : Machine := { m with status := .running }

/-- Moves the program counter. -/
def setPc (m : Machine) (pc : Nat) : Machine := { m with pc := pc }

/-- Stores a byte at an address. -/
def poke (m : Machine) (address : Nat) (value : UInt8) : Outcome Machine :=
  match m.memory.write address value with
  | .ok memory => ⟨{ m with memory := memory }, none⟩
  | .error fault => ⟨m, some fault⟩

/-! ## Executing one instruction -/

/-- The line that a number is printed as: its decimal digits and a line feed, as
ASCII bytes. -/
def printedLine (value : UInt8) : List UInt8 :=
  (Nat.toDigits 10 value.toNat ++ ['\n']).map fun c => UInt8.ofNat c.toNat

/-- Takes over registers that an instruction computed, or its fault. -/
def withRegisters (m : Machine) (result : Except Fault Registers) : Outcome Machine :=
  match result with
  | .ok registers => ⟨{ m with registers := registers }, none⟩
  | .error fault => ⟨m, some fault⟩

/-- Moves the stack pointer down by one; below cell 0 lies cell 255. -/
def lowerSp (m : Machine) : Machine :=
  { m with registers := m.registers.setSp (m.registers.sp - 1) }

/-- Moves the stack pointer up by one; above cell 255 lies cell 0. -/
def raiseSp (m : Machine) : Machine :=
  { m with registers := m.registers.setSp (m.registers.sp + 1) }

/-- Stores a byte in the cell at the stack pointer. -/
def storeAtSp (m : Machine) (value : UInt8) : Outcome Machine :=
  m.poke m.registers.sp.toNat value

/-- Reads the cell at the stack pointer. -/
def readAtSp (m : Machine) : Except Fault UInt8 :=
  m.memory.read m.registers.sp.toNat

/-- Prints a number on the device. -/
def print (m : Machine) (value : UInt8) : Outcome Machine :=
  let (device, failure) := m.device.print (printedLine value)
  ⟨{ m with device := device }, failure.map .outputFailed⟩

/-- What an instruction does, the advance of the program counter apart.

- `alu` looks up its operation by the opcode, which cannot fail;
- `push` moves the stack pointer before it reads its register, so pushing the
  stack pointer stores the lowered value;
- `pop` moves it after it has set its register;
- `call` checks that the return address is a byte before it does anything, and
  reads its register after it has pushed the return address.

The cells of the stack are accessed like all others, by an address that is checked. -/
def execute (m : Machine) : Instruction → Outcome Machine
  | .hlt => ⟨{ m with status := .stopped }, none⟩
  | .ldi reg value => m.withRegisters (m.registers.set reg value)
  | .prn reg =>
    match m.registers.get reg with
    | .ok value => m.print value
    | .error fault => ⟨m, some fault⟩
  | .alu op a b =>
    match Alu.ofOpcode op.opcode with
    | .ok op => m.withRegisters (op.apply m.registers a b)
    | .error fault => ⟨m, some fault⟩
  | .push reg =>
    let m := m.lowerSp
    match m.registers.get reg with
    | .ok value => m.storeAtSp value
    | .error fault => ⟨m, some fault⟩
  | .pop reg =>
    match m.readAtSp with
    | .error fault => ⟨m, some fault⟩
    | .ok value =>
      match m.registers.set reg value with
      | .ok registers => ⟨{ m with registers := registers }.raiseSp, none⟩
      | .error fault => ⟨m, some fault⟩
  | .call reg =>
    let returnAddress := m.pc + Opcode.call.length
    if returnAddress < Memory.size then
      match m.lowerSp.storeAtSp (UInt8.ofNat returnAddress) with
      | ⟨m, some fault⟩ => ⟨m, some fault⟩
      | ⟨m, none⟩ =>
        match m.registers.get reg with
        | .ok target => ⟨{ m with pc := target.toNat }, none⟩
        | .error fault => ⟨m, some fault⟩
    else
      ⟨m, some (.outOfBounds returnAddress)⟩
  | .ret =>
    match m.readAtSp with
    | .ok value => ⟨{ m.raiseSp with pc := value.toNat }, none⟩
    | .error fault => ⟨m, some fault⟩

/-- Counts an instruction that was decoded. -/
def count (m : Machine) (o : Opcode) : Machine :=
  { m with steps := m.steps + 1, profile := m.profile.map (·.record o) }

/-- Moves the program counter behind an executed instruction, unless the
instruction has set it. -/
def advance (m : Machine) (o : Opcode) : Machine :=
  if o.setsPc then m else { m with pc := m.pc + o.length }

/-- Stops the machine. -/
def stop (m : Machine) : Machine := { m with status := .stopped }

/-- Executes the instruction at the program counter, whether the machine is
running or not. An instruction is counted once it is decoded, even if it then
faults. -/
def step (m : Machine) : Outcome Machine :=
  match Instruction.decode m.memory m.pc with
  | .error fault => ⟨m.stop, some fault⟩
  | .ok i =>
    match (m.count i.opcode).execute i with
    | ⟨m', none⟩ => ⟨m'.advance i.opcode, none⟩
    | ⟨m', some fault⟩ => ⟨m'.stop, some fault⟩

end Machine

end LS8
