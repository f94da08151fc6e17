import LS8.Machine
import LS8.Proofs.Memory.Contents

/-!
# Loading an image

Loading lays a program over the bottom of memory (`Memory.peek?_load`): what lies above it
stays, also the end of a longer program that was loaded before. A program that is too long
covers all of memory, and that is a fault.

Two loads are therefore one, of the second program with what the first one has beyond it
(`Memory.load_load`), and zeros behind a program make no difference to a memory that is empty
(`Memory.load_append_zeros`). `Machine.load_overlays` says all this of machines.
-/

namespace LS8

namespace Memory

variable {m : Memory} {program a b : List UInt8} {n : Nat}

/-- **What loading leaves behind**: the program, as far as there are cells for it, and above it
what was there. -/
theorem peek?_load (m : Memory) (program : List UInt8) (i : Nat) :
    (m.load program).state.peek? i =
      if i < min program.length size then program[i]? else m.peek? i := by
  rw [load, peek?_writeAll, Nat.zero_add, Nat.sub_zero]
  simp only [Nat.zero_le, true_and, Nat.lt_min]

theorem fault_load_eq_some {fault : Fault} (h : (m.load program).fault = some fault) :
    fault = .outOfBounds size := by
  have hlong : size < program.length := by
    refine Nat.lt_of_not_le fun hfits => ?_
    rw [fault_load_eq_none_iff.2 hfits] at h
    cases h
  rw [fault_load_of_size_lt hlong] at h
  exact (Option.some.inj h).symm

/-- Loads that leave the same in every cell are the same, if nothing was too long. -/
theorem load_eq_load {m' : Memory} (ha : a.length ≤ size) (hb : b.length ≤ size)
    (h : ∀ i < size, (m.load a).state.peek? i = (m'.load b).state.peek? i) :
    m.load a = m'.load b := by
  have hstate : (m.load a).state = (m'.load b).state := by
    refine ext_peek? fun i => ?_
    by_cases hi : i < size
    · exact h i hi
    · have hend := Nat.le_of_not_lt hi
      rw [peek?_eq_none_iff.2 hend, peek?_eq_none_iff.2 hend]
  have hfault : (m.load a).fault = (m'.load b).fault := by
    rw [fault_load_eq_none_iff.2 ha, fault_load_eq_none_iff.2 hb]
  calc
    m.load a = ⟨(m.load a).state, (m.load a).fault⟩ := rfl
    _ = ⟨(m'.load b).state, (m'.load b).fault⟩ := by rw [hstate, hfault]
    _ = m'.load b := rfl

/-- **Two loads are one.** -/
theorem load_load (ha : a.length ≤ size) (hb : b.length ≤ size) :
    (m.load a).state.load b = m.load (b ++ a.drop b.length) := by
  have hlength : (b ++ a.drop b.length).length = max b.length a.length := by
    rw [List.length_append, List.length_drop]
    omega
  have hfits : (b ++ a.drop b.length).length ≤ size := hlength ▸ Nat.max_le.2 ⟨hb, ha⟩
  refine load_eq_load hb hfits fun i hi => ?_
  rw [peek?_load, peek?_load, peek?_load, hlength]
  by_cases hib : i < b.length
  · rw [if_pos (by omega), if_pos (by omega), List.getElem?_append_left hib]
  · -- beyond the second program, what the first one left
    have hbi := Nat.le_of_not_lt hib
    rw [if_neg (by omega), List.getElem?_append_right hbi, List.getElem?_drop,
      Nat.add_sub_cancel' hbi]
    by_cases hia : i < a.length
    · rw [if_pos (by omega), if_pos (by omega)]
    · rw [if_neg (by omega), if_neg (by omega)]

/-- **Zeros behind a program are in empty memory anyway.** -/
theorem load_append_zeros (h : program.length + n ≤ size) :
    zero.load (program ++ List.replicate n 0) = zero.load program := by
  have hlength : (program ++ List.replicate n 0).length = program.length + n := by
    rw [List.length_append, List.length_replicate]
  refine load_eq_load (hlength ▸ h) (by omega) fun i hi => ?_
  have hzero : zero.peek? i = some 0 := by simp [peek?, zero, hi]
  rw [peek?_load, peek?_load, hlength, hzero]
  by_cases hin : i < program.length
  · rw [if_pos (by omega), if_pos (by omega), List.getElem?_append_left hin]
  · rw [if_neg (by omega : ¬ i < min program.length size)]
    by_cases hpad : i < program.length + n
    · rw [if_pos (by omega), List.getElem?_append_right (Nat.le_of_not_lt hin),
        List.getElem?_replicate, if_pos (by omega)]
    · rw [if_neg (by omega)]

end Memory

namespace Machine

/-- **Loading lays a program over memory.** It succeeds exactly if the program fits, and any
fault is about the first address behind the memory. Either way the cells hold the program as
far as it goes, and above it what they held before; nothing else of a machine changes. So a
second program leaves of the first one what it does not reach, and a new machine is the same
whether or not zeros follow its program: nothing that is done later can tell the difference. -/
theorem load_overlays (m : Machine) (memory : Memory) (image : Image) :
    ((memory.load image.bytes).fault = none ↔ image.bytes.length ≤ 256) ∧
    (∀ fault, (memory.load image.bytes).fault = some fault → fault = .outOfBounds 256) ∧
    (∀ i, (memory.load image.bytes).state.peek? i =
      if i < min image.bytes.length 256 then image.bytes[i]? else memory.peek? i) ∧
    m.load image = ⟨{ m with memory := (m.memory.load image.bytes).state },
      (m.memory.load image.bytes).fault⟩ ∧
    (∀ next : Image, image.bytes.length ≤ 256 → next.bytes.length ≤ 256 →
      (m.load image).state.load next =
        m.load ⟨next.bytes ++ image.bytes.drop next.bytes.length⟩) ∧
    ∀ device profiling zeros, image.bytes.length + zeros ≤ 256 →
      (initial device profiling).load ⟨image.bytes ++ List.replicate zeros 0⟩ =
        (initial device profiling).load image := by
  refine ⟨Memory.fault_load_eq_none_iff, fun _ => Memory.fault_load_eq_some,
    memory.peek?_load image.bytes, rfl, fun next hfits hnext => ?_,
    fun device profiling zeros hfits => ?_⟩
  · have hmemory := Memory.load_load (m := m.memory) hfits hnext
    simp only [load, hmemory]
  · have hmemory := Memory.load_append_zeros hfits
    simp only [load, initial, hmemory]

theorem load_overlays_residue :
    (Memory.zero.load (List.replicate 257 7)).fault = some (.outOfBounds 256) ∧
    ((initial {} false).load ⟨[1, 2, 3]⟩).state.load ⟨[9]⟩ = (initial {} false).load ⟨[9, 2, 3]⟩ ∧
    (initial {} true).load ⟨[1, 0]⟩ = (initial {} true).load ⟨[1]⟩ := by
  obtain ⟨hfits, hfault, -⟩ := load_overlays default .zero ⟨List.replicate 257 7⟩
  obtain ⟨-, -, -, -, htwice, -⟩ := load_overlays (initial {} false) .zero ⟨[1, 2, 3]⟩
  obtain ⟨-, -, -, -, -, hzeros⟩ := load_overlays default .zero ⟨[1]⟩
  refine ⟨?_, htwice ⟨[9]⟩ (by decide) (by decide), hzeros {} true 1 (by decide)⟩
  cases h : (Memory.zero.load (List.replicate 257 7)).fault with
  | none => exact absurd (hfits.1 h) (by rw [List.length_replicate]; decide)
  | some fault => rw [hfault fault h]

end Machine

end LS8
