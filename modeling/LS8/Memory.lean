import LS8.Fault

/-!
# Memory

256 cells of one byte each. Two kinds of access exist:

- `Memory.get` and `Memory.set` take a byte as the address. Every byte addresses
  a cell, so they cannot fail; the stack works this way;
- `Memory.read`, `Memory.write` and `Memory.peek?` take any number. Addresses
  never wrap round: beyond the last cell, reading and writing are faults.

`Memory.load` copies a program to the bottom of memory.

The view of a memory is `Memory.peek?`: two memories that show the same at every
address are the same (`Memory.ext_peek?`), and each operation says what it shows
afterwards.
-/

namespace LS8

/-- The number of cells. -/
abbrev Memory.size : Nat := 256

/-- The contents of the memory, cell 0 first. -/
structure Memory where
  cells : Vector UInt8 Memory.size
deriving DecidableEq, Repr

namespace Memory

/-- Memory at power-on: all cells zero. -/
def zero : Memory := ⟨Vector.replicate size 0⟩

instance : Inhabited Memory := ⟨zero⟩

/-! ## Access by byte -/

/-- The cell that a byte addresses. -/
def get (m : Memory) (address : UInt8) : UInt8 :=
  getElem m.cells address.toNat address.toNat_lt

/-- Memory with the cell that a byte addresses replaced. -/
def set (m : Memory) (address : UInt8) (value : UInt8) : Memory :=
  ⟨m.cells.set address.toNat value address.toNat_lt⟩

@[simp] theorem get_zero (a : UInt8) : zero.get a = 0 := by
  simp [get, zero]

theorem get_set (m : Memory) (a b value : UInt8) :
    (m.set a value).get b = if a = b then value else m.get b := by
  simp [get, set, Vector.getElem_set, UInt8.toNat_inj]

@[simp] theorem get_set_self (m : Memory) (a value : UInt8) : (m.set a value).get a = value := by
  simp [get_set]

theorem get_set_of_ne (m : Memory) {a b : UInt8} (value : UInt8) (h : a ≠ b) :
    (m.set a value).get b = m.get b := by
  simp [get_set, h]

/-! ## Checked access -/

/-- The cell at an address, if there is one. -/
def peek? (m : Memory) (address : Nat) : Option UInt8 :=
  m.cells[address]?

/-- The cell at an address; a fault beyond the last one. -/
def read (m : Memory) (address : Nat) : Except Fault UInt8 :=
  match m.peek? address with
  | some value => .ok value
  | none => .error (.outOfBounds address)

/-- Memory with the cell at an address replaced; a fault beyond the last one. -/
def write (m : Memory) (address : Nat) (value : UInt8) : Except Fault Memory :=
  if h : address < size then
    .ok ⟨m.cells.set address value h⟩
  else
    .error (.outOfBounds address)

@[simp] theorem peek?_toNat (m : Memory) (a : UInt8) : m.peek? a.toNat = some (m.get a) := by
  simp [peek?, get, a.toNat_lt]

theorem peek?_eq_none_iff {m : Memory} {address : Nat} :
    m.peek? address = none ↔ size ≤ address := by
  simp [peek?]

theorem ext_peek? {m m' : Memory} (h : ∀ address, m.peek? address = m'.peek? address) :
    m = m' := by
  have hc : m.cells = m'.cells := Vector.ext fun i hi => by
    have := h i
    simpa [peek?, hi] using this
  cases m; cases m'; exact congrArg mk hc

theorem peek?_set (m : Memory) (a value : UInt8) (address : Nat) :
    (m.set a value).peek? address = if a.toNat = address then some value else m.peek? address := by
  by_cases h : a.toNat = address
  · subst h
    simp
  · simp [peek?, set, h]

theorem read_eq_ok_iff {m : Memory} {address : Nat} {value : UInt8} :
    m.read address = .ok value ↔ m.peek? address = some value := by
  unfold read
  cases m.peek? address <;> simp

theorem read_of_size_le {m : Memory} {address : Nat} (h : size ≤ address) :
    m.read address = .error (.outOfBounds address) := by
  simp [read, peek?_eq_none_iff.2 h]

@[simp] theorem read_toNat (m : Memory) (a : UInt8) : m.read a.toNat = .ok (m.get a) :=
  read_eq_ok_iff.2 (peek?_toNat m a)

@[simp] theorem write_toNat (m : Memory) (a value : UInt8) :
    m.write a.toNat value = .ok (m.set a value) := by
  simp [write, set, a.toNat_lt]

theorem write_of_size_le {m : Memory} {address : Nat} (value : UInt8) (h : size ≤ address) :
    m.write address value = .error (.outOfBounds address) := by
  simp [write, Nat.not_lt.2 h]

/-- Writes bytes to consecutive cells, up to the first fault. What was written
before it stays written. -/
def writeAll (m : Memory) (address : Nat) : List UInt8 → Outcome Memory
  | [] => ⟨m, none⟩
  | value :: rest =>
    match m.write address value with
    | .ok m' => m'.writeAll (address + 1) rest
    | .error fault => ⟨m, some fault⟩

/-- Copies a program to the cells from 0 on. A program that is too long fills
the memory and is a fault. -/
def load (m : Memory) (program : List UInt8) : Outcome Memory :=
  m.writeAll 0 program

end Memory

end LS8
