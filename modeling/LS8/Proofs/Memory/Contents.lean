import LS8.Memory

/-!
# The contents of memory

- `Memory.Holds m a bytes`: from address `a` on, the cells of `m` are `bytes`.
  It splits along the list (`holds_cons`, `holds_append`), so a reader of memory
  can take it apart byte by byte. `Memory.slice` is the same as a list of bytes
  (`slice_eq_iff_holds`).
- `Memory.peek?_writeAll`: what writing a run of bytes leaves in every cell,
  whether it fits or not; `Memory.fault_writeAll` says when it does not.
- `Memory.holds_writeAll`, `Memory.holds_load`: what is written within memory is
  held there, and a program that fits is held from address 0 on.
-/

namespace LS8.Memory

variable {m : Memory} {a : Nat}

/-- From address `a` on, the memory holds `bytes`. -/
def Holds (m : Memory) (a : Nat) (bytes : List UInt8) : Prop :=
  ∀ j (h : j < bytes.length), m.peek? (a + j) = some bytes[j]

theorem lt_size_of_peek?_eq_some {value : UInt8} (h : m.peek? a = some value) : a < size := by
  refine Nat.lt_of_not_le fun hle => ?_
  rw [peek?_eq_none_iff.2 hle] at h
  cases h

/-- Below the end of memory every address has a cell. -/
theorem exists_peek?_of_lt (m : Memory) (h : a < size) : ∃ value, m.peek? a = some value := by
  cases hv : m.peek? a with
  | some value => exact ⟨value, rfl⟩
  | none => exact absurd (peek?_eq_none_iff.1 hv) (Nat.not_le.2 h)

@[simp] theorem holds_nil : m.Holds a [] :=
  fun _ h => absurd h (Nat.not_lt_zero _)

/-- The first byte stands in the first cell and the rest behind it. -/
theorem holds_cons {byte : UInt8} {rest : List UInt8} :
    m.Holds a (byte :: rest) ↔ m.peek? a = some byte ∧ m.Holds (a + 1) rest := by
  constructor
  · intro h
    refine ⟨h 0 (Nat.succ_pos _), fun j hj => ?_⟩
    have := h (j + 1) (Nat.succ_lt_succ hj)
    rwa [show a + (j + 1) = a + 1 + j by omega] at this
  · rintro ⟨hhead, htail⟩ j hj
    cases j with
    | zero => exact hhead
    | succ j =>
      rw [show a + (j + 1) = a + 1 + j by omega]
      exact htail j (Nat.lt_of_succ_lt_succ hj)

/-- Two runs of bytes are held one behind the other. -/
theorem holds_append {xs ys : List UInt8} :
    m.Holds a (xs ++ ys) ↔ m.Holds a xs ∧ m.Holds (a + xs.length) ys := by
  induction xs generalizing a with
  | nil => simp
  | cons x xs ih =>
    rw [List.cons_append, holds_cons, holds_cons, ih, and_assoc, List.length_cons,
      show a + 1 + xs.length = a + (xs.length + 1) by omega]

/-- What is held lies within memory. -/
theorem Holds.add_length_le {bytes : List UInt8} (h : m.Holds a bytes) (hne : bytes ≠ []) :
    a + bytes.length ≤ size := by
  have hpos : 0 < bytes.length := List.length_pos_iff.2 hne
  have := lt_size_of_peek?_eq_some (h (bytes.length - 1) (by omega))
  omega

/-- The memory holds one list of bytes of each length from an address. -/
theorem Holds.unique {xs ys : List UInt8} (hx : m.Holds a xs) (hy : m.Holds a ys)
    (hlen : xs.length = ys.length) : xs = ys := by
  refine List.ext_getElem hlen fun j hj hj' => ?_
  exact Option.some.inj ((hx j hj).symm.trans (hy j hj'))

/-- What is held in cells that do not change is still held. -/
theorem Holds.congr {m' : Memory} {bytes : List UInt8} (h : m.Holds a bytes)
    (hcells : ∀ c : UInt8, a ≤ c.toNat → c.toNat < a + bytes.length → m'.get c = m.get c) :
    m'.Holds a bytes := by
  intro j hj
  have hcell := h j hj
  have hbyte : (UInt8.ofNat (a + j)).toNat = a + j :=
    UInt8.toNat_ofNat_of_lt (lt_size_of_peek?_eq_some hcell)
  rw [← hbyte, peek?_toNat] at hcell ⊢
  rw [hcells _ (by omega) (by omega), hcell]

/-- The `n` cells from address `a` on, or as many of them as there are. -/
def slice (m : Memory) (a n : Nat) : List UInt8 :=
  (m.cells.toList.drop a).take n

/-- A slice of the right length shows a list of bytes exactly where it is held. -/
theorem slice_eq_iff_holds {bytes : List UInt8} :
    m.slice a bytes.length = bytes ↔ m.Holds a bytes := by
  have hcell : ∀ j, j < bytes.length → (m.slice a bytes.length)[j]? = m.peek? (a + j) := by
    intro j hj
    rw [slice, List.getElem?_take_of_lt hj, List.getElem?_drop, Vector.getElem?_toList, peek?]
  constructor
  · intro h j hj
    rw [← hcell j hj, h, List.getElem?_eq_getElem hj]
  · intro h
    refine List.ext_getElem? fun j => ?_
    by_cases hj : j < bytes.length
    · rw [hcell j hj, h j hj, List.getElem?_eq_getElem hj]
    · have hend := Nat.le_of_not_lt hj
      rw [List.getElem?_eq_none hend, slice, List.getElem?_take_eq_none hend]

/-! ## Writing -/

theorem peek?_write {m' : Memory} {value : UInt8} (h : m.write a value = .ok m') (i : Nat) :
    m'.peek? i = if i = a then some value else m.peek? i := by
  unfold write at h
  split at h
  · next ha =>
    obtain rfl := Except.ok.inj h
    by_cases hi : i = a
    · subst hi
      simp [peek?, ha]
    · have hne : a ≠ i := Ne.symm hi
      simp [peek?, hi, hne]
  · cases h

theorem exists_write_of_lt (m : Memory) (value : UInt8) (h : a < size) :
    ∃ m', m.write a value = .ok m' :=
  ⟨_, by unfold write; rw [dif_pos h]⟩

/-- **What writing leaves behind**: the written bytes, as far as there are cells
for them, and everything else as it was. -/
theorem peek?_writeAll (m : Memory) (a : Nat) (bytes : List UInt8) (i : Nat) :
    (m.writeAll a bytes).state.peek? i =
      if a ≤ i ∧ i < a + bytes.length ∧ i < size then bytes[i - a]? else m.peek? i := by
  induction bytes generalizing m a with
  | nil => rw [if_neg (by simp; omega)]; rfl
  | cons byte rest ih =>
    by_cases ha : a < size
    · obtain ⟨m', hw⟩ := exists_write_of_lt m byte ha
      simp only [writeAll, hw, ih, peek?_write hw]
      by_cases hi : i = a
      · subst hi
        rw [if_neg (by omega), if_pos rfl, if_pos ⟨Nat.le_refl _, by simp, ha⟩]
        simp
      · rw [if_neg hi]
        by_cases hin : a + 1 ≤ i ∧ i < a + 1 + rest.length ∧ i < size
        · rw [if_pos hin, if_pos ⟨by omega, by simp; omega, hin.2.2⟩,
            show i - a = (i - (a + 1)) + 1 by omega, List.getElem?_cons_succ]
        · rw [if_neg hin, if_neg (by simp only [List.length_cons]; omega)]
    · -- no cell is left, so nothing is written any more
      simp only [writeAll, write_of_size_le byte (Nat.le_of_not_lt ha)]
      rw [if_neg (by omega)]

/-- Writing faults exactly if the bytes reach beyond the last cell, and then at
the first address without a cell. -/
theorem fault_writeAll (m : Memory) (a : Nat) (bytes : List UInt8) :
    (m.writeAll a bytes).fault =
      if bytes = [] ∨ a + bytes.length ≤ size then none
      else some (.outOfBounds (max a size)) := by
  induction bytes generalizing m a with
  | nil => rfl
  | cons byte rest ih =>
    rw [List.length_cons]
    by_cases ha : a < size
    · obtain ⟨m', hw⟩ := exists_write_of_lt m byte ha
      simp only [writeAll, hw, ih, reduceCtorEq, false_or]
      rw [show max (a + 1) size = max a size by omega]
      cases rest with
      | nil => rw [if_pos (.inl rfl), if_pos (by simp; omega)]
      | cons _ _ => simp only [reduceCtorEq, false_or, Nat.add_assoc, Nat.add_comm 1]
    · simp only [writeAll, write_of_size_le byte (Nat.le_of_not_lt ha)]
      rw [if_neg (by simp; omega), Nat.max_eq_left (Nat.le_of_not_lt ha)]

/-- What is written within memory is held there. -/
theorem holds_writeAll {bytes : List UInt8} (h : a + bytes.length ≤ size) :
    (m.writeAll a bytes).state.Holds a bytes := by
  intro j hj
  rw [peek?_writeAll, if_pos ⟨Nat.le_add_right a j, by omega, by omega⟩,
    Nat.add_sub_cancel_left, List.getElem?_eq_getElem hj]

/-! ## Loading -/

/-- A program is loaded without a fault exactly if it fits. -/
theorem fault_load_eq_none_iff {program : List UInt8} :
    (m.load program).fault = none ↔ program.length ≤ size := by
  rw [load, fault_writeAll, Nat.zero_add]
  by_cases h : program.length ≤ size
  · simp [h]
  · have hne : program ≠ [] := by
      rintro rfl
      exact h (Nat.zero_le _)
    simp [h, hne]

/-- A program that does not fit faults at the first address behind the memory. -/
theorem fault_load_of_size_lt {program : List UInt8} (h : size < program.length) :
    (m.load program).fault = some (.outOfBounds size) := by
  have hne : program ≠ [] := by
    rintro rfl
    exact absurd h (Nat.not_lt_zero _)
  rw [load, fault_writeAll, Nat.zero_add, if_neg (not_or.2 ⟨hne, Nat.not_le.2 h⟩),
    Nat.max_eq_right (Nat.zero_le _)]

/-- A program that fits is held from address 0 on. -/
theorem holds_load {program : List UInt8} (h : program.length ≤ size) :
    (m.load program).state.Holds 0 program :=
  holds_writeAll (by rwa [Nat.zero_add])

/-- Loading into empty memory leaves the program, filled up with zeros. -/
theorem peek?_load_zero {program : List UInt8} {i : Nat} (hi : i < size) :
    (zero.load program).state.peek? i = some (program.getD i 0) := by
  rw [load, peek?_writeAll, Nat.zero_add, Nat.sub_zero]
  by_cases hlt : i < program.length
  · rw [if_pos ⟨Nat.zero_le _, hlt, hi⟩, List.getElem?_eq_getElem hlt, List.getD_eq_getElem?_getD,
      List.getElem?_eq_getElem hlt, Option.getD_some]
  · rw [if_neg (by omega), List.getD_eq_getElem?_getD,
      List.getElem?_eq_none (Nat.le_of_not_lt hlt), Option.getD_none]
    simp [peek?, zero, hi]

/-- All cells of an empty memory that a program was loaded to. -/
theorem toList_cells_load_zero {program : List UInt8} (h : program.length ≤ size) :
    (zero.load program).state.cells.toList =
      program ++ List.replicate (size - program.length) 0 := by
  have hlength : (program ++ List.replicate (size - program.length) 0).length = size := by
    rw [List.length_append, List.length_replicate]
    omega
  refine List.ext_getElem? fun i => ?_
  rw [Vector.getElem?_toList, ← peek?]
  by_cases hi : i < size
  · rw [peek?_load_zero hi]
    by_cases hin : i < program.length
    · rw [List.getElem?_append_left hin, List.getD_eq_getElem?_getD,
        List.getElem?_eq_getElem hin, Option.getD_some]
    · have hbeyond := Nat.le_of_not_lt hin
      rw [List.getElem?_append_right hbeyond, List.getElem?_replicate, if_pos (by omega),
        List.getD_eq_getElem?_getD, List.getElem?_eq_none hbeyond, Option.getD_none]
  · have hend := Nat.le_of_not_lt hi
    rw [peek?_eq_none_iff.2 hend, List.getElem?_eq_none (Nat.le_trans (Nat.le_of_eq hlength) hend)]

end LS8.Memory
