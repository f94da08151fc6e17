import LS8.Proofs.Device.Lines
import LS8.Proofs.Machine.Horizon

/-!
# Runs on a device that gives out

A machine does the same on every device, up to the first line that the device does not
take.

- `Machine.printing?` is the number that the next step prints, and `Machine.printedLines`
  are the lines that a number of steps prints;
- `Machine.written_after`: what a device without limits has then been given;
- `Machine.step_withDevice_of_silent`, `Machine.step_withDevice_of_taken`,
  `Machine.step_withDevice_of_refused`: one step on another device;
- `Machine.Proceeds.withDevice`: as many steps as the limits of the device allow;
- `Machine.run?_of_room`, `Machine.run?_of_full`, `Machine.run?_of_no_flush`: whole runs, on
  a device with room for the whole output, with less room, and without enough flushes;
- `Machine.run?_of_limits`: all of it, for a program.
-/

namespace LS8.Machine

variable {m : Machine} {d d' : Device} {v : UInt8} {reason : String} {n j k : Nat}

/-! ## What is printed -/

/-- The machine with another device. -/
def withDevice (m : Machine) (d : Device) : Machine :=
  { m with device := d }

/-- The number that the next step prints, if it comes to print one. -/
def printing? (m : Machine) : Option UInt8 :=
  match m.fetch with
  | .ok (.prn reg) => (m.registers.get reg).toOption
  | _ => none

/-- The run comes to an instruction that prints `v`, after `j` steps that succeed. -/
def PrintsAt (m : Machine) (j : Nat) (v : UInt8) : Prop :=
  m.Proceeds j ∧
    ∃ reg, (m.after j).fetch = .ok (.prn reg) ∧ (m.after j).registers.get reg = .ok v

/-- The numbers that the first `n` steps print. -/
def printed (m : Machine) (n : Nat) : List UInt8 :=
  (List.range n).filterMap fun j => (m.after j).printing?

/-- The lines that the first `n` steps print. -/
def printedLines (m : Machine) (n : Nat) : List (List UInt8) :=
  (m.printed n).map printedLine

theorem printing?_eq_some_iff :
    m.printing? = some v ↔ ∃ reg, m.fetch = .ok (.prn reg) ∧ m.registers.get reg = .ok v := by
  unfold printing?
  split
  · next reg hf =>
    rw [hf]
    constructor
    · intro h
      refine ⟨reg, rfl, ?_⟩
      cases hget : m.registers.get reg with
      | ok w =>
        rw [hget] at h
        exact congrArg Except.ok (Option.some.inj h)
      | error f =>
        rw [hget] at h
        cases h
    · rintro ⟨reg', hreg, hget⟩
      cases hreg
      rw [hget]
      rfl
  · next hnot =>
    refine ⟨nofun, ?_⟩
    rintro ⟨reg, hf, -⟩
    exact absurd hf (hnot reg)

theorem printed_succ (m : Machine) (n : Nat) :
    m.printed (n + 1) = m.printed n ++ (m.after n).printing?.toList := by
  rw [printed, List.range_succ, List.filterMap_append, ← printed]
  cases h : (m.after n).printing? <;> simp [h]

theorem printedLines_succ_of_silent (h : (m.after n).printing? = none) :
    m.printedLines (n + 1) = m.printedLines n := by
  rw [printedLines, printed_succ, h, Option.toList_none, List.append_nil, printedLines]

theorem printedLines_succ_of_printing (h : (m.after n).printing? = some v) :
    m.printedLines (n + 1) = m.printedLines n ++ [printedLine v] := by
  rw [printedLines, printed_succ, h, Option.toList_some, List.map_append, printedLines]
  rfl

/-- More steps print more lines behind those of fewer steps. -/
theorem printedLines_prefix (m : Machine) (h : j ≤ k) : m.printedLines j <+: m.printedLines k := by
  induction k with
  | zero =>
    rw [Nat.le_zero.1 h]
  | succ k ih =>
    rcases Nat.lt_or_eq_of_le h with hlt | rfl
    · refine (ih (Nat.le_of_lt_succ hlt)).trans ?_
      rw [printedLines, printedLines, printed_succ, List.map_append]
      exact List.prefix_append _ _
    · exact List.prefix_rfl

theorem isLine_printedLine (v : UInt8) : Device.IsLine (printedLine v) := by
  refine ⟨(Nat.toDigits 10 v.toNat).map fun c => UInt8.ofNat c.toNat, ?_, ?_⟩
  · rw [printedLine, List.map_append]
    rfl
  · intro hmem
    obtain ⟨c, hc, hfeed⟩ := List.mem_map.1 hmem
    have hdigit := Char.isDigit_iff_toNat.1 (Nat.isDigit_of_mem_toDigits (by decide) (by decide) hc)
    have hlow : 48 ≤ c.toNat := hdigit.1
    have hhigh : c.toNat ≤ 57 := hdigit.2
    have hbyte : c.toNat % 256 = 10 := by simpa using congrArg UInt8.toNat hfeed
    omega

theorem isLine_of_mem_printedLines {line : List UInt8} (h : line ∈ m.printedLines n) :
    Device.IsLine line := by
  obtain ⟨v, -, rfl⟩ := List.mem_map.1 h
  exact isLine_printedLine v

/-! ## One step on another device -/

/-- The machine once the device has refused a line: the instruction is counted, and nothing
else is done. -/
def refused (m : Machine) (d : Device) : Machine :=
  { m.count .prn with status := .stopped, device := d }

@[simp] theorem refused_device (m : Machine) (d : Device) : (m.refused d).device = d :=
  rfl

/-- A step that prints nothing is the same on every device. -/
theorem step_withDevice_of_silent (h : m.printing? = none) (d : Device) :
    (m.withDevice d).step = ⟨m.step.state.withDevice d, m.step.fault⟩ := by
  have hprints : ∀ {reg v}, m.fetch = .ok (.prn reg) → m.registers.get reg ≠ .ok v := by
    intro reg v hf hget
    rw [printing?_eq_some_iff.2 ⟨reg, hf, hget⟩] at h
    cases h
  cases hf : m.fetch with
  | error f =>
    have hf' : (m.withDevice d).fetch = .error f := hf
    rw [step_of_fetch_error hf, step_of_fetch_error hf']
    rfl
  | ok i =>
    have hf' : (m.withDevice d).fetch = .ok i := hf
    rcases executes_or_refuses m i with ⟨m', hx⟩ | ⟨f, m', hx⟩
    · have hx' : Executes (m.withDevice d) i (m'.withDevice d) := by
        cases hx with
        | hlt => exact .hlt
        | ldi hset => exact .ldi hset
        | prn hget hprint => exact absurd hget (hprints hf)
        | alu happly => exact .alu happly
        | push hget => exact .push hget
        | pop hset => exact .pop hset
        | call hfit hget => exact .call hfit hget
        | ret => exact .ret
      rw [step_of_executes hf hx, step_of_executes hf' hx']
    · have hx' : Refuses (m.withDevice d) i f (m'.withDevice d) := by
        cases hx with
        | ldi hset => exact .ldi hset
        | prn hget => exact .prn hget
        | output hget hprint => exact absurd hget (hprints hf)
        | alu happly => exact .alu happly
        | push hget => exact .push hget
        | pop hset => exact .pop hset
        | returnAddress hfit => exact .returnAddress hfit
        | call hfit hget => exact .call hfit hget
      rw [step_of_refuses hf hx, step_of_refuses hf' hx']

theorem device_step_of_silent (h : m.printing? = none) : m.step.state.device = m.device :=
  congrArg (fun outcome => outcome.state.device) (step_withDevice_of_silent h m.device)

/-- A step that prints a line which the device takes. -/
theorem step_withDevice_of_taken (h : m.printing? = some v)
    (hprint : d.print (printedLine v) = (d', none)) :
    (m.withDevice d).step = ⟨{ (m.count .prn).withDevice d' with pc := m.pc + 2 }, none⟩ := by
  obtain ⟨reg, hf, hget⟩ := printing?_eq_some_iff.1 h
  have hf' : (m.withDevice d).fetch = .ok (.prn reg) := hf
  exact step_of_executes hf' (.prn hget hprint)

/-- A step that prints a line which the device refuses has done nothing but count. -/
theorem step_withDevice_of_refused (h : m.printing? = some v)
    (hprint : d.print (printedLine v) = (d', some reason)) :
    (m.withDevice d).step =
      ⟨m.refused d', some (.outputFailed reason)⟩ := by
  obtain ⟨reg, hf, hget⟩ := printing?_eq_some_iff.1 h
  have hf' : (m.withDevice d).fetch = .ok (.prn reg) := hf
  exact step_of_refuses hf' (.output hget hprint)

/-- Where a step prints, it is on the device that the devices differ. -/
theorem step_withDevice_of_unlimited (hm : m.device.Unlimited) (h : m.printing? = some v)
    (hprint : d.print (printedLine v) = (d', none)) :
    (m.withDevice d).step = ⟨m.step.state.withDevice d', none⟩ ∧ m.step.fault = none := by
  have hstep : m.step = _ := step_withDevice_of_taken h (Device.print_of_unlimited hm _)
  rw [step_withDevice_of_taken h hprint, hstep]
  exact ⟨rfl, rfl⟩

theorem goesOn_withDevice (hm : m.GoesOn) (hstep : (m.withDevice d).step.fault = none) :
    (m.withDevice d).GoesOn :=
  ⟨hstep, hm.2⟩

/-- On an unlimited device, a step that is not followed by another prints nothing. -/
theorem printing?_of_not_goesOn (hm : m.device.Unlimited) (h : ¬ m.GoesOn) :
    m.printing? = none := by
  cases hv : m.printing? with
  | none => rfl
  | some v =>
    have hfault := (step_withDevice_of_unlimited hm hv (Device.print_of_unlimited hm _)).2
    obtain ⟨reg, hf, -⟩ := printing?_eq_some_iff.1 hv
    refine absurd ⟨hfault, ?_⟩ h
    intro hhlt
    cases hf.symm.trans hhlt

/-! ## Many steps on another device -/

theorem unlimited_after (hm : m.device.Unlimited) (n : Nat) : (m.after n).device.Unlimited := by
  induction n with
  | zero => exact hm
  | succ n ih => exact unlimited_step ih

/-- The bytes that the next step prints. -/
def emitted (m : Machine) : List UInt8 :=
  (m.printing?.map printedLine).getD []

/-- **What a step prints** comes behind what was there. -/
theorem written_step (hd : m.device.Unlimited) :
    m.step.state.device.written = m.device.written ++ m.emitted := by
  cases hv : m.printing? with
  | none =>
    rw [device_step_of_silent hv, emitted, hv]
    simp
  | some v =>
    have hstep : m.step = _ := step_withDevice_of_taken hv (Device.print_of_unlimited hd _)
    rw [hstep, emitted, hv]
    rfl

theorem flatten_printedLines_succ (m : Machine) (n : Nat) :
    (m.printedLines (n + 1)).flatten = (m.printedLines n).flatten ++ (m.after n).emitted := by
  rw [emitted]
  cases hv : (m.after n).printing? with
  | none =>
    rw [printedLines_succ_of_silent hv]
    exact (List.append_nil _).symm
  | some v =>
    rw [printedLines_succ_of_printing hv, List.flatten_append, List.flatten_singleton]
    rfl

/-- **What has been printed**, whether or not the steps report faults. -/
theorem written_after (hd : m.device.Unlimited) (n : Nat) :
    (m.after n).device.written = m.device.written ++ (m.printedLines n).flatten := by
  induction n with
  | zero => exact Array.appendList_nil.symm
  | succ n ih =>
    rw [after_succ, written_step (unlimited_after hd n), ih, flatten_printedLines_succ,
      ← Array.toList_inj]
    simp only [Array.toList_appendList, List.append_assoc]

/-- **A machine does the same on every device** whose limits allow the lines that it
prints. -/
theorem Proceeds.withDevice (hm : m.device.Unlimited) (h : m.Proceeds n)
    (hd : d.Bears (m.printedLines n)) :
    (m.withDevice d).Proceeds n ∧
      (m.withDevice d).after n = (m.after n).withDevice (d.after (m.printedLines n)) := by
  induction n with
  | zero =>
    refine ⟨proceeds_zero, ?_⟩
    show m.withDevice d = m.withDevice (d.after [])
    rw [Device.after_nil]
  | succ n ih =>
    obtain ⟨hbefore, hlast⟩ := proceeds_succ.1 h
    have hmn := unlimited_after hm n
    cases hv : (m.after n).printing? with
    | none =>
      rw [printedLines_succ_of_silent hv] at hd ⊢
      obtain ⟨hproceeds, hafter⟩ := ih hbefore hd
      have hstep := step_withDevice_of_silent hv (d.after (m.printedLines n))
      rw [← hafter] at hstep
      refine ⟨proceeds_succ.2 ⟨hproceeds, ?_⟩, by rw [after_succ, hstep, after_succ]⟩
      rw [hafter]
      refine goesOn_withDevice hlast ?_
      rw [← hafter, hstep, hlast.1]
    | some v =>
      rw [printedLines_succ_of_printing hv] at hd ⊢
      obtain ⟨hproceeds, hafter⟩ := ih hbefore hd.of_append
      obtain ⟨hstep, -⟩ := step_withDevice_of_unlimited hmn hv (Device.print_after hd)
      rw [← hafter] at hstep
      refine ⟨proceeds_succ.2 ⟨hproceeds, ?_⟩, by rw [after_succ, hstep, after_succ]⟩
      rw [hafter]
      refine goesOn_withDevice hlast ?_
      rw [← hafter, hstep]

/-- What an unlimited device has been given. -/
theorem device_after (hm : m.device.Unlimited) (h : m.Proceeds n) :
    (m.after n).device = m.device.after (m.printedLines n) := by
  obtain ⟨-, hafter⟩ := h.withDevice hm (Device.bears_of_unlimited hm _)
  have hself : m.withDevice m.device = m := rfl
  rw [hself] at hafter
  rw [hafter]
  rfl

/-- If the limits do not allow all lines, there is a first step that prints one too many. -/
theorem exists_first_refused (h : ¬ d.Bears (m.printedLines n)) :
    ∃ j < n, ∃ v, d.Bears (m.printedLines j) ∧ (m.after j).printing? = some v ∧
      ¬ d.Bears (m.printedLines j ++ [printedLine v]) := by
  induction n with
  | zero => exact absurd (Device.bears_nil d) h
  | succ n ih =>
    by_cases hn : d.Bears (m.printedLines n)
    · cases hv : (m.after n).printing? with
      | none =>
        rw [printedLines_succ_of_silent hv] at h
        exact absurd hn h
      | some v =>
        rw [printedLines_succ_of_printing hv] at h
        exact ⟨n, Nat.lt_succ_self n, v, hn, hv, h⟩
    · obtain ⟨j, hj, v, hrest⟩ := ih hn
      exact ⟨j, Nat.lt_succ_of_lt hj, v, hrest⟩

/-! ## Whole runs -/

theorem start_withDevice (m : Machine) (d : Device) :
    (m.withDevice d).start = m.start.withDevice d :=
  rfl

/-- A run whose lines are all taken ends as it does on an unlimited device. -/
theorem run?_withDevice_of_bears (hm : m.device.Unlimited) (h : m.start.Proceeds k)
    (hend : ¬ (m.start.after k).GoesOn) (hd : d.Bears (m.start.printedLines k)) :
    (m.withDevice d).run? =
      some ⟨(m.start.after k).step.state.withDevice (d.after (m.start.printedLines k)),
        (m.start.after k).step.fault⟩ := by
  have hm' : m.start.device.Unlimited := hm
  obtain ⟨hproceeds, hafter⟩ := h.withDevice hm' hd
  rw [← start_withDevice] at hproceeds hafter
  have hsilent := printing?_of_not_goesOn (unlimited_after hm' k) hend
  have hstep := step_withDevice_of_silent hsilent (d.after (m.start.printedLines k))
  rw [← hafter] at hstep
  rw [run?_of_not_goesOn hproceeds]
  · exact congrArg some hstep
  · rintro ⟨hfault, hhlt⟩
    rw [hstep] at hfault
    rw [hafter] at hhlt
    exact hend ⟨hfault, hhlt⟩

/-- A run ends at the first line that is refused. -/
theorem run?_withDevice_of_refused (hm : m.device.Unlimited) (h : m.start.Proceeds j)
    (hd : d.Bears (m.start.printedLines j)) (hv : (m.start.after j).printing? = some v)
    (hprint : (d.after (m.start.printedLines j)).print (printedLine v) = (d', some reason)) :
    (m.withDevice d).run? =
      some ⟨(m.start.after j).refused d', some (.outputFailed reason)⟩ := by
  have hm' : m.start.device.Unlimited := hm
  obtain ⟨hproceeds, hafter⟩ := h.withDevice hm' hd
  rw [← start_withDevice] at hproceeds hafter
  have hstep := step_withDevice_of_refused hv hprint
  rw [← hafter] at hstep
  rw [run?_of_not_goesOn hproceeds]
  · exact congrArg some hstep
  · rintro ⟨hfault, -⟩
    rw [hstep] at hfault
    cases hfault

/-! ## From a new device -/

theorem unlimited_of_new (hm : m.device = {}) : m.device.Unlimited := by
  rw [hm]
  exact ⟨rfl, rfl⟩

/-- A new device has what was written to it. -/
theorem device_after_of_new (hm : m.device = {}) (h : m.Proceeds n) :
    (m.after n).device = { written := (m.printedLines n).flatten.toArray } := by
  rw [device_after (unlimited_of_new hm) h, hm]
  simp [Device.after]

variable {outcome : Outcome Machine}

/-- A run that ends has written the lines that its steps printed. -/
theorem exists_last_step (hm : m.device = {}) (h : m.run? = some outcome) :
    ∃ k, m.start.Proceeds k ∧ ¬ (m.start.after k).GoesOn ∧ (m.start.after k).step = outcome ∧
      outcome.state.device = { written := (m.start.printedLines k).flatten.toArray } := by
  have hm' : m.start.device = {} := hm
  obtain ⟨k, hk, hend, rfl⟩ := run?_eq_some_iff.1 h
  refine ⟨k, hk, hend, rfl, ?_⟩
  have hsilent := printing?_of_not_goesOn (unlimited_after (unlimited_of_new hm') k) hend
  rw [device_step_of_silent hsilent, device_after_of_new hm' hk]

/-- **A device with room for the whole output makes no difference.** -/
theorem run?_of_room (hm : m.device = {}) (h : m.run? = some outcome)
    (hn : outcome.state.device.written.size ≤ n) :
    (m.withDevice { capacity := some n }).run? =
        some ⟨outcome.state.withDevice { outcome.state.device with capacity := some n },
          outcome.fault⟩ ∧
      ∀ j, m.start.Proceeds j →
        (m.withDevice { capacity := some n }).start.after j =
          (m.start.after j).withDevice { (m.start.after j).device with capacity := some n } := by
  have hm' : m.start.device = {} := hm
  have hunlimited := unlimited_of_new hm
  obtain ⟨k, hk, hend, rfl, hdevice⟩ := exists_last_step hm h
  rw [hdevice, List.size_toArray] at hn
  have hlimited : ∀ lines, ({ capacity := some n } : Device).after lines =
      { written := lines.flatten.toArray, capacity := some n } := by
    intro lines
    simp [Device.after]
  constructor
  · rw [run?_withDevice_of_bears hunlimited hk hend (Device.bears_capacity_iff.2 hn), hdevice,
      hlimited]
  · intro j hj
    have hjk : j ≤ k := by
      refine Nat.le_of_not_lt fun hkj => hend (hj k hkj)
    have hbears : Device.Bears { capacity := some n } (m.start.printedLines j) := by
      obtain ⟨rest, hrest⟩ := printedLines_prefix m.start hjk
      rw [← hrest] at hn
      exact (Device.bears_capacity_iff.2 hn).of_append
    rw [start_withDevice, (hj.withDevice (unlimited_of_new hm') hbears).2,
      device_after_of_new hm' hj, hlimited]

/-- The lines up to a line that is printed are the first lines of the whole output. -/
theorem printedLines_split (hjk : j < k) (hv : (m.after j).printing? = some v) :
    ∃ rest, m.printedLines k = m.printedLines j ++ [printedLine v] ++ rest := by
  obtain ⟨rest, hrest⟩ := printedLines_prefix m (Nat.succ_le_of_lt hjk)
  rw [printedLines_succ_of_printing hv] at hrest
  exact ⟨rest, hrest.symm⟩

/-- **A device with less room keeps the first bytes of the output**, and the run fails
at the first line for which there is no room. -/
theorem run?_of_full (hm : m.device = {}) (h : m.run? = some outcome)
    (hn : n < outcome.state.device.written.size) :
    ∃ j v, m.start.PrintsAt j v ∧
      (∀ i ≤ j, (m.start.after i).device.written.size ≤ n) ∧
      n < (m.start.after j).device.written.size + (printedLine v).length ∧
      (m.withDevice { capacity := some n }).run? =
        some ⟨(m.start.after j).refused
            { written := outcome.state.device.written.take n, capacity := some n },
          some (.outputFailed Device.full)⟩ := by
  have hm' : m.start.device = {} := hm
  obtain ⟨k, hk, -, -, hdevice⟩ := exists_last_step hm h
  rw [hdevice, List.size_toArray] at hn
  obtain ⟨j, hjk, v, hbears, hv, hfull⟩ := exists_first_refused
    (mt Device.bears_capacity_iff.1 (Nat.not_le_of_lt hn))
  have hj := hk.mono (Nat.le_of_lt hjk)
  have hfits := Device.bears_capacity_iff.1 hbears
  have hover : n < (m.start.printedLines j).flatten.length + (printedLine v).length := by
    have hlt := Nat.lt_of_not_le (mt Device.bears_capacity_iff.2 hfull)
    rwa [List.flatten_append, List.length_append, List.flatten_singleton] at hlt
  refine ⟨j, v, ⟨hj, printing?_eq_some_iff.1 hv⟩, ?_, ?_, ?_⟩
  · intro i hi
    rw [device_after_of_new hm' (hj.mono hi), List.size_toArray]
    obtain ⟨rest, hrest⟩ := printedLines_prefix m.start hi
    rw [← hrest] at hbears
    exact Device.bears_capacity_iff.1 hbears.of_append
  · rw [device_after_of_new hm' hj, List.size_toArray]
    exact hover
  · obtain ⟨rest, hrest⟩ := printedLines_split hjk hv
    have htake : (m.start.printedLines k).flatten.take n =
        ((m.start.printedLines j).flatten ++ printedLine v).take n := by
      rw [hrest, List.flatten_append, List.flatten_append, List.flatten_singleton]
      refine List.take_append_of_le_length ?_
      rw [List.length_append]
      exact Nat.le_of_lt hover
    rw [run?_withDevice_of_refused (unlimited_of_new hm) hj hbears hv
      (Device.print_after_of_full hfits hover), hdevice, List.take_toArray, htake]

/-- **A device that flushes only so often keeps the first lines of the output**, and the
run fails at the line behind which there is no flush. -/
theorem run?_of_no_flush (hm : m.device = {}) (h : m.run? = some outcome)
    (hn : n < outcome.state.device.written.toList.count 10) :
    ∃ j v, m.start.PrintsAt j v ∧ (m.start.printed j).length = n ∧
      (m.withDevice { flushes := some n }).run? =
        some ⟨(m.start.after j).refused
            { written := (Device.firstLines (n + 1) outcome.state.device.written.toList).toArray
              flushes := some 0 },
          some (.outputFailed Device.flushFailed)⟩ := by
  obtain ⟨k, hk, -, -, hdevice⟩ := exists_last_step hm h
  have hlines : ∀ line ∈ m.start.printedLines k, Device.IsLine line :=
    fun line => isLine_of_mem_printedLines
  rw [hdevice, Device.count_flatten hlines] at hn
  obtain ⟨j, hjk, v, hbears, hv, hmore⟩ := exists_first_refused
    (mt Device.bears_flushes_iff.1 (Nat.not_le_of_lt hn))
  have hj := hk.mono (Nat.le_of_lt hjk)
  have hlength : (m.start.printedLines j).length = n := by
    have hle := Device.bears_flushes_iff.1 hbears
    have hlt := Nat.lt_of_not_le (mt Device.bears_flushes_iff.2 hmore)
    rw [List.length_append, List.length_singleton] at hlt
    omega
  refine ⟨j, v, ⟨hj, printing?_eq_some_iff.1 hv⟩, ?_, ?_⟩
  · rwa [printedLines, List.length_map] at hlength
  · obtain ⟨rest, hrest⟩ := printedLines_split hjk hv
    have htake : (m.start.printedLines k).take (n + 1) =
        m.start.printedLines j ++ [printedLine v] := by
      rw [hrest]
      refine List.take_left' ?_
      rw [List.length_append, hlength, List.length_singleton]
    rw [run?_withDevice_of_refused (unlimited_of_new hm) hj hbears hv
      (Device.print_after_of_no_flush hlength), hdevice, Device.firstLines_flatten hlines, htake,
      List.flatten_append, List.flatten_singleton]

/-- **A device that fails leaves an exact prefix of the output.** If the run of a program ends,
then on a device with room for `n` bytes it ends too, and the device keeps the first `n` bytes
of the output, or all of them. With room for all of them, nothing else differs, at no step and
at the end. With less room, the run fails at the first line that does not fit, and leaves the
machine stopped, but otherwise as it came there with the instruction counted. On a device that
bears `n` flushes, it fails in the same way at the line after the `n`-th, which the device keeps
whole. -/
theorem run?_of_limits {image : Image} {profiling : Bool} (hm : m = loaded {} profiling image)
    (h : m.run? = some outcome) :
    (∀ n, ∃ limited, (loaded { capacity := some n } profiling image).run? = some limited ∧
      limited.state.device.written.toList = outcome.state.device.written.toList.take n) ∧
    (∀ n, outcome.state.device.written.size ≤ n →
      (loaded { capacity := some n } profiling image).run? =
          some ⟨outcome.state.withDevice { outcome.state.device with capacity := some n },
            outcome.fault⟩ ∧
        ∀ j, m.start.Proceeds j →
          (loaded { capacity := some n } profiling image).start.after j =
            (m.start.after j).withDevice
              { (m.start.after j).device with capacity := some n }) ∧
    (∀ n, n < outcome.state.device.written.size →
      ∃ j v, m.start.PrintsAt j v ∧
        (∀ i ≤ j, (m.start.after i).device.written.size ≤ n) ∧
        n < (m.start.after j).device.written.size + (printedLine v).length ∧
        (loaded { capacity := some n } profiling image).run? =
          some ⟨(m.start.after j).refused
              { written := outcome.state.device.written.take n, capacity := some n },
            some (.outputFailed Device.full)⟩) ∧
    ∀ n, n < outcome.state.device.written.toList.count 10 →
      ∃ j v, m.start.PrintsAt j v ∧ (m.start.printed j).length = n ∧
        (loaded { flushes := some n } profiling image).run? =
          some ⟨(m.start.after j).refused
              { written := (Device.firstLines (n + 1)
                  outcome.state.device.written.toList).toArray
                flushes := some 0 },
            some (.outputFailed Device.flushFailed)⟩ := by
  have hnew : m.device = {} := by
    rw [hm]
    rfl
  have hlimited : ∀ d, loaded d profiling image = m.withDevice d := by
    intro d
    rw [hm]
    rfl
  simp only [hlimited]
  refine ⟨?_, fun n hn => run?_of_room hnew h hn, fun n hn => run?_of_full hnew h hn,
    fun n hn => run?_of_no_flush hnew h hn⟩
  intro n
  rcases Nat.lt_or_ge n outcome.state.device.written.size with hlt | hge
  · obtain ⟨j, v, -, -, -, hrun⟩ := run?_of_full hnew h hlt
    exact ⟨_, hrun, by simp⟩
  · exact ⟨_, (run?_of_room hnew h hge).1, (List.take_of_length_le hge).symm⟩

/-- `LDI R0,5`, `PRN R0`, `PRN R0`, `HLT`: prints two lines. -/
def printsTwice : Image :=
  ⟨[0x82, 0, 5, 0x47, 0, 0x47, 0, 1]⟩

theorem run?_of_limits_printsTwice :
    (∃ limited, (loaded { capacity := some 3 } false printsTwice).run? = some limited ∧
      limited.state.device.written.toList = [53, 10, 53]) ∧
    (loaded { capacity := some 4 } false printsTwice).run? =
      some ⟨((loaded {} false printsTwice).start.after 4).withDevice
        { written := #[53, 10, 53, 10], capacity := some 4 }, none⟩ ∧
    ∃ j, (loaded { flushes := some 0 } false printsTwice).run? =
      some ⟨((loaded {} false printsTwice).start.after j).refused
        { written := #[53, 10], flushes := some 0 }, some (.outputFailed Device.flushFailed)⟩ := by
  have hhalts : (loaded {} false printsTwice).start.HaltsAt 4 :=
    ⟨3, rfl, by decide +kernel, by decide +kernel⟩
  have hdevice : ((loaded {} false printsTwice).start.after 4).device =
      { written := #[53, 10, 53, 10] } := by
    decide +kernel
  obtain ⟨hfirst, hroom, -, hflush⟩ := run?_of_limits rfl (run?_of_haltsAt hhalts)
  simp only [hdevice] at hfirst hroom hflush
  obtain ⟨j, v, -, -, hrun⟩ := hflush 0 (by decide)
  exact ⟨hfirst 3, (hroom 4 (by decide)).1, j, hrun⟩

end LS8.Machine
