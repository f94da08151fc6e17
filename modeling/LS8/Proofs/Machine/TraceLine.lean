import LS8.Machine.Trace
import LS8.Proofs.Instruction.Encoding
import LS8.Proofs.Machine.Faults
import LS8.Proofs.Machine.InstructionSet
import LS8.Proofs.Machine.Limits
import LS8.Proofs.Text.Lines
import LS8.Proofs.Text.Numeral

/-!
# What a trace line tells

A trace line shows the program counter, three bytes and the registers. That is all that the
next step depends on, as far as its fault, its output and the status are concerned.

- `Machine.TracedAs m line`: what the line of a machine has to show, and
  `Machine.tracedAs_traceLine` that it does.
- `Machine.traceLine_eq_iff`: two machines have the same line exactly if they show the same
  (`Machine.ShowsAlike`). The line is a row of words with blanks between them, so it is read
  back word by word.
- `Machine.fault_step_eq`, `Machine.ShowsAlike.emitted`, `Machine.status_step`: what a step reports,
  prints and leaves as the status, each from what is fetched and the registers.
- `Machine.exists_last_of_traceFor`: the lines of a run that ends are those of the states
  before its steps, the last one included.
- `Machine.traceLine_determines`: machines with the same line do the same in their next step,
  and runs with the same lines do the same altogether.
-/

namespace LS8

open Memory (size)

theorem Registers.toList_injective : Function.Injective Registers.toList := by
  rintro ⟨slots⟩ ⟨slots₁⟩ h
  exact congrArg Registers.mk (Vector.toList_inj.1 h)

namespace Machine

variable {m m₁ : Machine} {n n₁ k : Nat} {lines : List String} {outcome outcome₁ : Outcome Machine}

/-! ## The words of a line -/

/-- The words of a trace line. -/
def traceWords (m : Machine) : List String :=
  ["TRACE:", Numeral.hexUpper m.pc, "|", traceByte (m.memory.peek? m.pc),
      traceByte (m.memory.peek? (m.pc + 1)), traceByte (m.memory.peek? (m.pc + 2)), "|"]
    ++ m.registers.toList.map fun value => Numeral.hexUpper value.toNat

theorem traceLine_eq (m : Machine) : m.traceLine = String.intercalate " " m.traceWords := by
  apply String.toList_injective
  unfold traceLine
  simp [traceWords, Text.intercalate_cons, List.flatMap_map]

theorem isAlphanum_or_hyphen_of_mem_traceByte {b : Option UInt8} {c : Char}
    (hc : c ∈ (traceByte b).toList) : c.isAlphanum = true ∨ c = '-' := by
  cases b with
  | some byte => exact .inl (Numeral.isAlphanum_of_mem_hexUpper hc)
  | none => exact .inr (by simpa [traceByte] using hc)

/-- What stands for a missing byte is no numeral, so every byte and its absence are told
apart. -/
theorem traceByte_injective : Function.Injective traceByte := by
  have hmissing : ∀ byte : UInt8, traceByte none ≠ traceByte (some byte) := by
    intro byte h
    have hmem : '-' ∈ (traceByte (some byte)).toList := by
      rw [← h]
      decide
    exact absurd (Numeral.isAlphanum_of_mem_hexUpper hmem) (by decide)
  intro a b h
  cases a with
  | none =>
    cases b with
    | none => rfl
    | some byte => exact absurd h (hmissing byte)
  | some byte =>
    cases b with
    | none => exact absurd h.symm (hmissing byte)
    | some byte' => exact congrArg some (UInt8.toNat_inj.1 (Numeral.hexUpper_injective h))

theorem blank_notMem_of_mem_traceWords {word : String} (h : word ∈ m.traceWords) :
    ' ' ∉ word.toList := by
  have hnumeral : ∀ n, ' ' ∉ (Numeral.hexUpper n).toList := by
    intro n hc
    exact absurd (Numeral.isAlphanum_of_mem_hexUpper hc) (by decide)
  have hbyte : ∀ b, ' ' ∉ (traceByte b).toList := by
    intro b hc
    exact (isAlphanum_or_hyphen_of_mem_traceByte hc).elim (by decide) (by decide)
  simp only [traceWords, List.cons_append, List.nil_append, List.mem_cons, List.mem_map] at h
  rcases h with rfl | rfl | rfl | rfl | rfl | rfl | rfl | ⟨value, -, rfl⟩
  · decide
  · exact hnumeral m.pc
  · decide
  · exact hbyte _
  · exact hbyte _
  · exact hbyte _
  · decide
  · exact hnumeral value.toNat

/-- A word of a trace line that shows a byte, or that there is none. -/
def ShowsByte (word : String) : Option UInt8 → Prop
  | some byte => Numeral.IsHex word byte.toNat
  | none => word = "--"

/-- The line shows a machine: in base sixteen the program counter, the three bytes from there
on, as far as there are any, and all registers. -/
def TracedAs (m : Machine) (line : String) : Prop :=
  ∃ pc first second third values,
    Numeral.IsHex pc m.pc ∧
    ShowsByte first (m.memory.peek? m.pc) ∧
    ShowsByte second (m.memory.peek? (m.pc + 1)) ∧
    ShowsByte third (m.memory.peek? (m.pc + 2)) ∧
    List.Forall₂ (fun word value => Numeral.IsHex word value.toNat) values m.registers.toList ∧
    line = "TRACE: " ++ pc ++ " | " ++ first ++ " " ++ second ++ " " ++ third ++ " |"
      ++ String.join (values.map (" " ++ ·))

theorem showsByte_traceByte (b : Option UInt8) : ShowsByte (traceByte b) b := by
  cases b with
  | some byte => exact Numeral.isHex_hexUpper byte.toNat
  | none => rfl

/-- **A trace line shows its machine.** -/
theorem tracedAs_traceLine (m : Machine) : m.TracedAs m.traceLine := by
  have hvalues : (m.registers.toList.map fun value => " " ++ Numeral.hexUpper value.toNat) =
      (m.registers.toList.map fun value => Numeral.hexUpper value.toNat).map (" " ++ ·) :=
    List.map_map.symm
  refine ⟨Numeral.hexUpper m.pc, _, _, _,
    m.registers.toList.map fun value => Numeral.hexUpper value.toNat, Numeral.isHex_hexUpper m.pc,
    showsByte_traceByte _, showsByte_traceByte _, showsByte_traceByte _, ?_, ?_⟩
  · rw [List.forall₂_map_left_iff, List.forall₂_same]
    exact fun value _ => Numeral.isHex_hexUpper value.toNat
  · exact congrArg (_ ++ ·) (congrArg String.join hvalues)

/-! ## What two lines have in common -/

/-- The machines show the same: the program counter, the bytes from there on as far as an
instruction can reach, and the registers. -/
structure ShowsAlike (m m₁ : Machine) : Prop where
  pc : m₁.pc = m.pc
  code : ∀ j < 3, m₁.memory.peek? (m.pc + j) = m.memory.peek? (m.pc + j)
  registers : m₁.registers = m.registers

theorem ShowsAlike.of_traceWords (h : m₁.traceWords = m.traceWords) : ShowsAlike m m₁ := by
  simp only [traceWords, List.cons_append, List.nil_append, List.cons.injEq, true_and] at h
  obtain ⟨hpc, h0, h1, h2, hregisters⟩ := h
  have hpc : m₁.pc = m.pc := Numeral.hexUpper_injective hpc
  rw [hpc] at h0 h1 h2
  refine ⟨hpc, ?_, ?_⟩
  · rintro (_ | _ | _ | j) hj
    · exact traceByte_injective h0
    · exact traceByte_injective h1
    · exact traceByte_injective h2
    · omega
  · refine Registers.toList_injective ((List.map_inj_right ?_).1 hregisters)
    intro value value₁ hvalue
    exact UInt8.toNat_inj.1 (Numeral.hexUpper_injective hvalue)

/-- **A trace line shows what it is written from**, and nothing else. -/
theorem traceLine_eq_iff : m₁.traceLine = m.traceLine ↔ ShowsAlike m m₁ := by
  constructor
  · intro h
    rw [traceLine_eq, traceLine_eq] at h
    exact .of_traceWords (Text.words_inj (fun _ => blank_notMem_of_mem_traceWords)
      (fun _ => blank_notMem_of_mem_traceWords) nofun nofun h)
  · intro h
    have h0 : m₁.memory.peek? m.pc = m.memory.peek? m.pc := h.code 0 (by decide)
    have h1 := h.code 1 (by decide)
    have h2 := h.code 2 (by decide)
    rw [traceLine_eq, traceLine_eq, traceWords, traceWords, h.pc, h.registers, h0, h1, h2]

/-- Three bytes are enough to decode an instruction. -/
theorem ShowsAlike.fetch (h : ShowsAlike m m₁) : m₁.fetch = m.fetch := by
  unfold Machine.fetch
  rw [h.pc]
  refine Instruction.decode_congr fun a hle hlt => ?_
  have hextent := Instruction.extent_le_three m.memory m.pc
  have hcell := h.code (a - m.pc) (by omega)
  rwa [Nat.add_sub_of_le hle] at hcell

theorem ShowsAlike.printing? (h : ShowsAlike m m₁) : m₁.printing? = m.printing? := by
  unfold Machine.printing?
  rw [h.fetch, h.registers]

/-! ## What a step makes of it -/

/-- The fault of an instruction at the address `pc`, if it is refused on a device that never
fails. -/
def refusal? (pc : Nat) (i : Instruction) : Option Fault :=
  if i.opcode = .call ∧ size ≤ pc + 2 then some (.outOfBounds (pc + 2))
  else i.invalidRegister?.map .invalidRegister

/-- **What a step reports** depends on what is fetched and from where, and on nothing else. -/
theorem fault_step_eq (hd : m.device.Unlimited) :
    m.step.fault = match m.fetch with
      | .error f => some f
      | .ok i => refusal? m.pc i := by
  cases hf : m.fetch with
  | error f => rw [step_of_fetch_error hf]
  | ok i =>
    show m.step.fault = refusal? m.pc i
    rcases executes_or_refuses m i with ⟨m', hx⟩ | ⟨f, m', hx⟩
    · have hcall : ¬ (i.opcode = .call ∧ size ≤ m.pc + 2) := by
        rintro ⟨ho, hle⟩
        exact absurd (returnAddress_lt_of_executes hx ho) (Nat.not_lt.2 hle)
      rw [step_of_executes hf hx, refusal?, if_neg hcall, invalidRegister?_of_executes hx]
      rfl
    · rw [step_of_refuses hf hx, refusal?]
      rcases refuses_cases hd hx with ⟨ho, hle, rfl⟩ | ⟨index, hindex, rfl, hcall⟩
      · rw [if_pos ⟨ho, hle⟩]
      · rw [if_neg fun h => Nat.not_lt.2 h.2 (hcall h.1), hindex]
        rfl

/-- **A machine that does not go on is stopped**, and one that does keeps its status. -/
theorem status_step (m : Machine) :
    m.step.state.status = if m.GoesOn then m.status else .stopped := by
  by_cases h : m.GoesOn
  · obtain ⟨i, -, hi, hx⟩ := h.executes
    rw [if_pos h, status_of_executes hx hi]
  · rw [if_neg h]
    rcases not_goesOn h with hhlt | ⟨f, hf⟩
    · rw [step_of_executes hhlt .hlt]
    · exact status_of_fault hf

theorem ShowsAlike.fault_step (h : ShowsAlike m m₁) (hd : m.device.Unlimited)
    (hd₁ : m₁.device.Unlimited) : m₁.step.fault = m.step.fault := by
  rw [fault_step_eq hd, fault_step_eq hd₁, h.fetch, h.pc]

theorem ShowsAlike.emitted (h : ShowsAlike m m₁) : m₁.emitted = m.emitted := by
  rw [Machine.emitted, Machine.emitted, h.printing?]

theorem ShowsAlike.goesOn_iff (h : ShowsAlike m m₁) (hd : m.device.Unlimited)
    (hd₁ : m₁.device.Unlimited) : m₁.GoesOn ↔ m.GoesOn := by
  rw [GoesOn, GoesOn, h.fault_step hd hd₁, h.fetch]

theorem ShowsAlike.status_step (h : ShowsAlike m m₁) (hd : m.device.Unlimited)
    (hd₁ : m₁.device.Unlimited) (hstatus : m₁.status = m.status) :
    m₁.step.state.status = m.step.state.status := by
  rw [Machine.status_step, Machine.status_step, hstatus]
  exact if_congr (h.goesOn_iff hd hd₁) rfl rfl

/-! ## The lines of a run -/

/-- The lines of the states before the first `n` steps. -/
def traceLines (m : Machine) (n : Nat) : List String :=
  (List.range n).map fun j => (m.after j).traceLine

theorem traceLines_succ (m : Machine) (n : Nat) :
    m.traceLines (n + 1) = m.traceLine :: m.step.state.traceLines n := by
  rw [traceLines, List.range_succ_eq_map, List.map_cons, List.map_map]
  refine congrArg (m.traceLine :: ·) (List.map_congr_left fun j _ => ?_)
  exact congrArg traceLine (after_succ_eq_after_step m j)

theorem traceFor_of_stopped (hm : m.status = .stopped) : m.traceFor n = ([], ⟨m, none⟩) := by
  cases n with
  | zero => rfl
  | succ n => simp only [traceFor, hm]

theorem traceFor_of_goesOn (hm : m.status = .running) (h : m.GoesOn) :
    m.traceFor (n + 1) =
      (m.traceLine :: (m.step.state.traceFor n).1, (m.step.state.traceFor n).2) := by
  rw [traceFor, hm, step_eq_of_fault_eq_none h.1]

theorem traceFor_of_not_goesOn (hm : m.status = .running) (h : ¬ m.GoesOn) :
    m.traceFor (n + 1) = ([m.traceLine], m.step) := by
  have hstopped := status_step m
  rw [if_neg h] at hstopped
  rw [traceFor, hm]
  rcases hs : m.step with ⟨m', _ | f⟩
  · rw [hs] at hstopped
    simp only [traceFor_of_stopped hstopped]
  · rfl

/-- **The lines of a run that ends** are those of its steps, by induction on the number of steps
that it is given. -/
theorem exists_last_of_traceFor (hm : m.status = .running) (h : m.traceFor n = (lines, outcome))
    (hend : outcome.state.status = .stopped) :
    ∃ k, m.Proceeds k ∧ ¬ (m.after k).GoesOn ∧ lines = m.traceLines (k + 1) ∧
      outcome = (m.after k).step := by
  induction n generalizing m lines with
  | zero =>
    obtain ⟨-, rfl⟩ := Prod.mk.inj h
    rw [hm] at hend
    cases hend
  | succ n ih =>
    by_cases hgoes : m.GoesOn
    · rw [traceFor_of_goesOn hm hgoes] at h
      obtain ⟨rfl, hrest⟩ := Prod.mk.inj h
      have hrunning : m.step.state.status = .running := by
        rw [status_step, if_pos hgoes, hm]
      obtain ⟨k, hk, hlast, hlines, houtcome⟩ := ih hrunning (Prod.ext rfl hrest)
      rw [← after_succ_eq_after_step] at hlast houtcome
      refine ⟨k + 1, .of_step hgoes hk, hlast, ?_, houtcome⟩
      rw [traceLines_succ]
      exact congrArg (m.traceLine :: ·) hlines
    · rw [traceFor_of_not_goesOn hm hgoes] at h
      obtain ⟨rfl, rfl⟩ := Prod.mk.inj h
      exact ⟨0, proceeds_zero, hgoes, rfl, rfl⟩

theorem length_traceLines (m : Machine) (n : Nat) : (m.traceLines n).length = n := by
  rw [traceLines, List.length_map, List.length_range]

/-- Runs with the same lines are in states that show the same, one after the other. -/
theorem showsAlike_of_traceLines (h : m₁.traceLines n = m.traceLines n) (hk : k < n) :
    ShowsAlike (m.after k) (m₁.after k) := by
  refine traceLine_eq_iff.1 ?_
  have hline := congrArg (·[k]?) h
  simpa [traceLines, hk] using hline

theorem printedLines_of_traceLines (h : m₁.traceLines n = m.traceLines n) :
    m₁.printedLines n = m.printedLines n := by
  have hprinted : m₁.printed n = m.printed n := by
    refine List.filterMap_congr fun j hj => ?_
    exact (showsAlike_of_traceLines h (List.mem_range.1 hj)).printing?
  rw [printedLines, printedLines, hprinted]

/-- **A trace line tells the whole story of the next step.** Machines with the same line have
the same program counter, the same bytes from there on, or none, and the same registers. On
devices that never fail they take the same step: it reports the same, prints the same and, if
they had the same status, leaves the same. So two runs from the start to the end that have the
same lines report the same and print the same, whatever else is in their memories. -/
theorem traceLine_determines :
    (∀ m m₁ : Machine, m₁.traceLine = m.traceLine →
      m₁.pc = m.pc ∧
      (∀ j, j < 3 → m₁.memory.peek? (m.pc + j) = m.memory.peek? (m.pc + j)) ∧
      m₁.registers = m.registers ∧
      (m.device.Unlimited → m₁.device.Unlimited →
        m₁.step.fault = m.step.fault ∧
        (∃ text : List UInt8, m.step.state.device.written = m.device.written ++ text ∧
          m₁.step.state.device.written = m₁.device.written ++ text) ∧
        (m₁.status = m.status → m₁.step.state.status = m.step.state.status))) ∧
    ∀ (m m₁ : Machine) (n n₁ : Nat) (lines : List String) (outcome outcome₁ : Outcome Machine),
      m.device.Unlimited → m₁.device.Unlimited →
      m.start.traceFor n = (lines, outcome) → outcome.state.status = .stopped →
      m₁.start.traceFor n₁ = (lines, outcome₁) → outcome₁.state.status = .stopped →
      m.run? = some outcome ∧ m₁.run? = some outcome₁ ∧ outcome₁.fault = outcome.fault ∧
      ∃ text : List UInt8, outcome.state.device.written = m.device.written ++ text ∧
        outcome₁.state.device.written = m₁.device.written ++ text := by
  refine ⟨fun m m₁ h => ?_, fun m m₁ n n₁ lines outcome outcome₁ hd hd₁ h hend h₁ hend₁ => ?_⟩
  · have halike := traceLine_eq_iff.1 h
    refine ⟨halike.pc, halike.code, halike.registers, fun hd hd₁ => ⟨halike.fault_step hd hd₁,
      ⟨m.emitted, written_step hd, ?_⟩, halike.status_step hd hd₁⟩⟩
    rw [← halike.emitted]
    exact written_step hd₁
  · obtain ⟨k, hk, hlast, rfl, rfl⟩ := exists_last_of_traceFor rfl h hend
    obtain ⟨k₁, hk₁, hlast₁, hlines, rfl⟩ := exists_last_of_traceFor rfl h₁ hend₁
    -- as many lines as steps, so both runs end at the same step
    obtain rfl : k = k₁ := by
      have hlength := congrArg List.length hlines
      rw [length_traceLines, length_traceLines] at hlength
      exact Nat.succ.inj hlength
    have hd' : m.start.device.Unlimited := hd
    have hd₁' : m₁.start.device.Unlimited := hd₁
    have halike := showsAlike_of_traceLines hlines.symm (Nat.lt_succ_self k)
    refine ⟨run?_of_not_goesOn hk hlast, run?_of_not_goesOn hk₁ hlast₁,
      halike.fault_step (unlimited_after hd' k) (unlimited_after hd₁' k),
      (m.start.printedLines (k + 1)).flatten, written_after hd' (k + 1), ?_⟩
    rw [← printedLines_of_traceLines hlines.symm]
    exact written_after hd₁' (k + 1)

/-- A machine with `LDI R0,5`, `PRN R0` and `HLT`, and the given byte behind all that its lines
show. -/
def printsFiveBefore (byte : UInt8) : Machine :=
  loaded {} false ⟨[0x82, 0, 5, 0x47, 0, 1, 0, 0, byte]⟩

theorem traceLine_determines_printsFiveBefore :
    ((printsFiveBefore 2).after 1).step.fault = ((printsFiveBefore 1).after 1).step.fault ∧
    ∃ outcome outcome₁, (printsFiveBefore 1).run? = some outcome ∧
      (printsFiveBefore 2).run? = some outcome₁ ∧ outcome₁.fault = outcome.fault ∧
      outcome₁.state.memory.peek? 8 ≠ outcome.state.memory.peek? 8 := by
  have hline : ((printsFiveBefore 2).after 1).traceLine =
      ((printsFiveBefore 1).after 1).traceLine := by
    decide +kernel
  -- the second run is given one step more than it takes
  have hlines : ((printsFiveBefore 2).start.traceFor 4).1 =
      ((printsFiveBefore 1).start.traceFor 3).1 := by
    decide +kernel
  have hnew : ∀ byte n, ((printsFiveBefore byte).after n).device.Unlimited :=
    fun byte n => unlimited_after ⟨rfl, rfl⟩ n
  have htraced : (printsFiveBefore 1).start.traceFor 3 =
      (((printsFiveBefore 1).start.traceFor 3).1, ((printsFiveBefore 1).start.traceFor 3).2) :=
    Prod.mk.eta.symm
  have htraced₁ : (printsFiveBefore 2).start.traceFor 4 =
      (((printsFiveBefore 1).start.traceFor 3).1, ((printsFiveBefore 2).start.traceFor 4).2) :=
    Prod.ext hlines rfl
  obtain ⟨hstep, hruns⟩ := traceLine_determines
  obtain ⟨-, -, -, hdoes⟩ := hstep _ _ hline
  obtain ⟨hrun, hrun₁, hfault, -⟩ := hruns _ _ _ _ _ _ _ (hnew 1 0) (hnew 2 0) htraced
    (by decide +kernel) htraced₁ (by decide +kernel)
  refine ⟨(hdoes (hnew 1 1) (hnew 2 1)).1, _, _, hrun, hrun₁, hfault, ?_⟩
  decide +kernel

end Machine

end LS8
