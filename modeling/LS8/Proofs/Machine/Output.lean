import LS8.Proofs.Machine.Trajectory

/-!
# Output

A device without limits takes every line (`Device.print_of_unlimited`), and no step
imposes a limit on it (`Machine.unlimited_step`). A device with limits takes a line
if it has room for it and a flush is left, and it has less of both afterwards
(`Device.print_eq_ok_iff`).
-/

namespace LS8

/-- A device that never fails: it has room for every write and bears every flush. -/
def Device.Unlimited (d : Device) : Prop :=
  d.capacity = none ∧ d.flushes = none

/-- What an unlimited device is given, it keeps behind what it has. -/
theorem Device.write_of_unlimited {d : Device} (h : d.Unlimited) (bytes : List UInt8) :
    d.write bytes = ({ d with written := d.written ++ bytes }, none) := by
  have hkept : d.accepts bytes.length = bytes.length := by
    rw [Device.accepts, h.1]
  simp [Device.write, hkept]

theorem Device.print_of_unlimited {d : Device} (h : d.Unlimited) (bytes : List UInt8) :
    d.print bytes = ({ d with written := d.written ++ bytes }, none) := by
  simp [Device.print, Device.write_of_unlimited h, Device.flush, h.2]

/-- How much a device still has room for, if there is a limit. -/
def Device.room (d : Device) : Option Nat :=
  d.capacity.map (· - d.written.size)

theorem Device.size_append (written : Array UInt8) (bytes : List UInt8) :
    (written ++ bytes).size = written.size + bytes.length := by
  simp [← Array.length_toList]

/-- What is written is taken from the room. -/
theorem Device.room_append (d : Device) (bytes : List UInt8) (flushes : Option Nat) :
    Device.room { d with written := d.written ++ bytes, flushes := flushes } =
      d.room.map (· - bytes.length) := by
  simp only [Device.room, Option.map_map, Function.comp_def, Nat.sub_sub, Device.size_append]

/-- A print succeeds if there is room for all of it and a flush is left. -/
theorem Device.print_eq_ok_iff {d d' : Device} {bytes : List UInt8} :
    d.print bytes = (d', none) ↔
      (∀ room ∈ d.room, bytes.length ≤ room) ∧ d.flushes ≠ some 0 ∧
        d' = { d with written := d.written ++ bytes, flushes := d.flushes.map (· - 1) } := by
  have hfits : (∀ room ∈ d.room, bytes.length ≤ room) ↔
      ¬ d.accepts bytes.length < bytes.length := by
    unfold Device.room Device.accepts
    cases d.capacity with
    | none => simp
    | some capacity =>
      simp only [Option.map_some, Option.mem_some_iff, forall_eq']
      omega
  rw [hfits]
  by_cases hkept : d.accepts bytes.length < bytes.length
  · simp [Device.print, Device.write, hkept]
  · have hall : bytes.take (d.accepts bytes.length) = bytes :=
      List.take_of_length_le (Nat.le_of_not_lt hkept)
    cases hflushes : d.flushes with
    | none => simp [Device.print, Device.write, Device.flush, hkept, hall, hflushes, eq_comm]
    | some left =>
      cases left with
      | zero => simp [Device.print, Device.write, Device.flush, hkept, hflushes]
      | succ left => simp [Device.print, Device.write, Device.flush, hkept, hall, hflushes, eq_comm]

namespace Machine

variable {m m' : Machine} {i : Instruction} {f : Fault}

theorem unlimited_of_executes (h : m.device.Unlimited) (hx : Executes m i m') :
    m'.device.Unlimited := by
  cases hx with
  | prn hget hprint =>
    rw [Device.print_of_unlimited h] at hprint
    obtain ⟨rfl, -⟩ := Prod.mk.inj hprint
    exact h
  | _ => exact h

/-- On an unlimited device a refused instruction has printed nothing. -/
theorem device_of_refuses (h : m.device.Unlimited) (hx : Refuses m i f m') :
    m'.device = m.device := by
  cases hx with
  | output hget hprint =>
    rw [Device.print_of_unlimited h] at hprint
    exact absurd (Prod.mk.inj hprint).2 nofun
  | _ => rfl

/-- A step leaves an unlimited device unlimited. -/
theorem unlimited_step (h : m.device.Unlimited) : m.step.state.device.Unlimited := by
  rcases hs : m.step with ⟨m', _ | f⟩
  · obtain ⟨i, -, hx⟩ := step_eq_ok_iff.1 hs
    exact unlimited_of_executes h hx
  · rcases step_eq_fault_iff.1 hs with ⟨-, rfl⟩ | ⟨i, -, hx⟩
    · exact h
    · rw [device_of_refuses h hx]
      exact h

end Machine

end LS8
