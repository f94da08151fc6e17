import LS8.Fault

/-!
# Registers

Eight registers of one byte. The last of them, R7, is also the stack pointer and
starts just below the top of memory; the others start at zero.

An instruction names a register by an operand byte. `Registers.get` and
`Registers.set` check it: a byte of eight or more names no register.
-/

namespace LS8

/-- The number of registers. -/
abbrev Registers.count : Nat := 8

/-- The contents of the registers, R0 first. -/
structure Registers where
  slots : Vector UInt8 Registers.count
deriving DecidableEq, Repr

namespace Registers

/-- The stack pointer at power-on; the stack grows downwards from here. -/
def initialStackPointer : UInt8 := 0xF4

/-- Registers at power-on. -/
def initial : Registers :=
  ⟨#v[0, 0, 0, 0, 0, 0, 0, initialStackPointer]⟩

instance : Inhabited Registers := ⟨initial⟩

/-- The register that an operand byte names. -/
def get (r : Registers) (index : UInt8) : Except Fault UInt8 :=
  if h : index.toNat < count then
    .ok r.slots[index.toNat]
  else
    .error (.invalidRegister index)

/-- Registers with the one that an operand byte names replaced. -/
def set (r : Registers) (index value : UInt8) : Except Fault Registers :=
  if h : index.toNat < count then
    .ok ⟨r.slots.set index.toNat value h⟩
  else
    .error (.invalidRegister index)

/-- The stack pointer, which is R7. -/
def sp (r : Registers) : UInt8 := r.slots[7]

/-- Registers with the stack pointer replaced. -/
def setSp (r : Registers) (value : UInt8) : Registers :=
  ⟨r.slots.set 7 value⟩

/-! ## What the operations show afterwards -/

theorem get_of_lt {r : Registers} {index : UInt8} (h : index.toNat < count) :
    r.get index = .ok r.slots[index.toNat] := by
  simp [get, h]

theorem get_of_count_le {r : Registers} {index : UInt8} (h : count ≤ index.toNat) :
    r.get index = .error (.invalidRegister index) := by
  simp [get, Nat.not_lt.2 h]

theorem set_of_count_le {r : Registers} {index : UInt8} (value : UInt8)
    (h : count ≤ index.toNat) : r.set index value = .error (.invalidRegister index) := by
  simp [set, Nat.not_lt.2 h]

theorem get_eq_error_iff {r : Registers} {index : UInt8} {f : Fault} :
    r.get index = .error f ↔ count ≤ index.toNat ∧ f = .invalidRegister index := by
  by_cases h : index.toNat < count
  · rw [get_of_lt h]
    exact ⟨nofun, fun hf => absurd h (Nat.not_lt.2 hf.1)⟩
  · have hle := Nat.le_of_not_lt h
    rw [get_of_count_le hle]
    exact ⟨fun hf => ⟨hle, (Except.error.inj hf).symm⟩, fun hf => by rw [hf.2]⟩

theorem set_eq_error_iff {r : Registers} {index value : UInt8} {f : Fault} :
    r.set index value = .error f ↔ count ≤ index.toNat ∧ f = .invalidRegister index := by
  by_cases h : index.toNat < count
  · simp only [set, dif_pos h]
    exact ⟨nofun, fun hf => absurd h (Nat.not_lt.2 hf.1)⟩
  · have hle := Nat.le_of_not_lt h
    rw [set_of_count_le value hle]
    exact ⟨fun hf => ⟨hle, (Except.error.inj hf).symm⟩, fun hf => by rw [hf.2]⟩

theorem lt_count_of_get_eq_ok {r : Registers} {index value : UInt8}
    (h : r.get index = .ok value) : index.toNat < count := by
  refine Nat.lt_of_not_le fun hle => ?_
  rw [get_of_count_le hle] at h
  cases h

theorem lt_count_of_set_eq_ok {r r' : Registers} {index value : UInt8}
    (h : r.set index value = .ok r') : index.toNat < count := by
  refine Nat.lt_of_not_le fun hle => ?_
  rw [set_of_count_le value hle] at h
  cases h

theorem exists_set_of_lt (r : Registers) {index : UInt8} (value : UInt8)
    (h : index.toNat < count) : ∃ r', r.set index value = .ok r' :=
  ⟨_, dif_pos h⟩

/-- Setting a register changes what it holds and no other register. -/
theorem get_of_set {r r' : Registers} {a b value : UInt8} (h : r.set a value = .ok r') :
    r'.get b = if a = b then .ok value else r.get b := by
  unfold set at h
  split at h
  · next ha =>
    obtain rfl := Except.ok.inj h
    by_cases hab : a = b
    · subst hab
      simp [get, ha]
    · have hne : a.toNat ≠ b.toNat := fun e => hab (UInt8.toNat_inj.1 e)
      unfold get
      split <;> simp [hne]
  · cases h

theorem get_sp (r : Registers) : r.get 7 = .ok r.sp := rfl

theorem set_sp (r : Registers) (value : UInt8) : r.set 7 value = .ok (r.setSp value) := rfl

@[simp] theorem sp_setSp (r : Registers) (value : UInt8) : (r.setSp value).sp = value := by
  simp [sp, setSp]

/-- Moving the stack pointer changes R7 only. -/
theorem get_setSp (r : Registers) (value index : UInt8) :
    (r.setSp value).get index = if index = 7 then .ok value else r.get index := by
  rw [get_of_set (set_sp r value)]
  by_cases h : index = 7
  · simp [h]
  · simp [h, Ne.symm h]

/-- Setting another register leaves the stack pointer alone. -/
theorem sp_of_set {r r' : Registers} {a value : UInt8} (h : r.set a value = .ok r')
    (ha : a ≠ 7) : r'.sp = r.sp := by
  have hget := get_of_set (b := 7) h
  rw [if_neg ha, get_sp, get_sp] at hget
  exact Except.ok.inj hget

/-- All registers, R0 first. -/
def toList (r : Registers) : List UInt8 := r.slots.toList

end Registers

end LS8
