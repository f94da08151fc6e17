import LS8.Opcode
import LS8.Registers

/-!
# The arithmetic unit

Two operations on bytes, both modulo 256. `Alu.apply` works on registers and
leaves the result in the first of them.
-/

namespace LS8

/-- The operations of the arithmetic unit. -/
inductive Alu where
  | add
  | mul
deriving DecidableEq, Repr, Inhabited

namespace Alu

/-- The result of an operation, modulo 256. -/
def compute : Alu → UInt8 → UInt8 → UInt8
  | add, a, b => a + b
  | mul, a, b => a * b

/-- The opcode of an operation. -/
def opcode : Alu → Opcode
  | add => .add
  | mul => .mul

/-- The operation of an opcode; a fault for all other opcodes. -/
def ofOpcode (o : Opcode) : Except Fault Alu :=
  if o.isAlu then
    match o with
    | .add => .ok add
    | .mul => .ok mul
    | _ => .error (.unsupportedAlu o.byte)
  else
    .error (.unsupportedAlu o.byte)

/-- An operation is found by its opcode and by no other. -/
theorem ofOpcode_eq_ok_iff {o : Opcode} {op : Alu} : ofOpcode o = .ok op ↔ op.opcode = o := by
  constructor
  · intro h
    cases o <;> cases op <;> first | rfl | cases h
  · rintro rfl
    cases op <;> rfl

@[simp] theorem ofOpcode_opcode (op : Alu) : ofOpcode op.opcode = .ok op :=
  ofOpcode_eq_ok_iff.2 rfl

theorem opcode_ne (op : Alu) {o : Opcode} (h : o.isAlu = false) : op.opcode ≠ o := by
  rintro rfl
  cases op <;> cases h

theorem length_opcode (op : Alu) : op.opcode.length = 3 := by
  cases op <;> decide

/-- Replaces register `a` by the result of the operation on registers `a` and
`b`. The register operands are checked in this order. -/
def apply (op : Alu) (r : Registers) (a b : UInt8) : Except Fault Registers := do
  let x ← r.get a
  let y ← r.get b
  r.set a (op.compute x y)

/-- The operation reads both of its registers and sets the first of them. -/
theorem apply_eq_ok_iff {op : Alu} {r r' : Registers} {a b : UInt8} :
    op.apply r a b = .ok r' ↔
      ∃ x y, r.get a = .ok x ∧ r.get b = .ok y ∧ r.set a (op.compute x y) = .ok r' := by
  unfold apply
  cases r.get a with
  | error f => simp [bind, Except.bind]
  | ok x =>
    cases r.get b with
    | error f => simp [bind, Except.bind]
    | ok y => simp [bind, Except.bind]

/-- The operation faults at the first of its registers that does not exist. -/
theorem apply_eq_error_iff {op : Alu} {r : Registers} {a b : UInt8} {f : Fault} :
    op.apply r a b = .error f ↔
      r.get a = .error f ∨ (∃ x, r.get a = .ok x) ∧ r.get b = .error f := by
  unfold apply
  cases ha : r.get a with
  | error g => simp [bind, Except.bind]
  | ok x =>
    cases hb : r.get b with
    | error g => simp [bind, Except.bind]
    | ok y =>
      have hne : ∀ g, r.set a (op.compute x y) ≠ .error g := fun g hg => by
        have hlt := Registers.lt_count_of_get_eq_ok ha
        exact absurd (Registers.set_eq_error_iff.1 hg).1 (Nat.not_le.2 hlt)
      simp [bind, Except.bind, hne]

end Alu

end LS8
