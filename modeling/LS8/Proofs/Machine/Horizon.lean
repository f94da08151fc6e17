import Mathlib.Data.Fintype.BigOperators
import Mathlib.Data.Fintype.Pigeonhole
import Mathlib.Tactic.Ring
import LS8.Proofs.Machine.Course
import LS8.Proofs.Machine.Output

/-!
# The horizon

`Machine.run?` gives up after `Machine.horizon` steps. It may: what the steps to come
do depends on the program counter, the memory, the registers and what is left of the
limits of the device (`Machine.Alike`), and before the horizon all of this has been
the same twice. So a machine that proceeds to its horizon goes round in circles
(`Machine.neverStops_of_proceeds_horizon`), and `Machine.run?` has the end of every
run that ends.
-/

namespace LS8.Machine

open Memory (size)

variable {m m' m₁ : Machine} {i : Instruction} {f : Fault} {n j k : Nat}

/-! ## What the steps to come depend on -/

/-- The steps to come of both machines do the same. -/
structure Alike (m m₁ : Machine) : Prop where
  pc : m₁.pc = m.pc
  memory : m₁.memory = m.memory
  registers : m₁.registers = m.registers
  room : m₁.device.room = m.device.room
  flushes : m₁.device.flushes = m.device.flushes

theorem Alike.refl (m : Machine) : Alike m m :=
  ⟨rfl, rfl, rfl, rfl, rfl⟩

theorem Alike.fetch (h : Alike m m₁) : m₁.fetch = m.fetch := by
  unfold Machine.fetch
  rw [h.memory, h.pc]

theorem Alike.lowered (h : Alike m m₁) : m₁.lowered = m.lowered := by
  unfold Machine.lowered
  rw [h.registers]

theorem Alike.top (h : Alike m m₁) : m₁.top = m.top := by
  unfold Machine.top
  rw [h.memory, h.registers]

/-- What a print leaves of the room is the same if the room was. -/
theorem room_written {d d₁ : Device} (h : d₁.room = d.room) (bytes : List UInt8)
    (flushes flushes₁ : Option Nat) :
    Device.room { d₁ with written := d₁.written ++ bytes, flushes := flushes₁ } =
      Device.room { d with written := d.written ++ bytes, flushes := flushes } := by
  rw [Device.room_append, Device.room_append, h]

/-- What succeeds in one machine succeeds in all that are alike. -/
theorem Alike.executes (h : Alike m m₁) (hx : Executes m i m') :
    ∃ m₁', Executes m₁ i m₁' ∧ Alike m' m₁' := by
  cases hx with
  | hlt =>
    refine ⟨_, .hlt, ?_, h.memory, h.registers, h.room, h.flushes⟩
    show m₁.pc + 1 = m.pc + 1
    rw [h.pc]
  | ldi hset =>
    rw [← h.registers] at hset
    refine ⟨_, .ldi hset, ?_, h.memory, rfl, h.room, h.flushes⟩
    show m₁.pc + 3 = m.pc + 3
    rw [h.pc]
  | prn hget hprint =>
    -- the devices may have been given different text, but both take the line
    obtain ⟨hroom, hflush, rfl⟩ := Device.print_eq_ok_iff.1 hprint
    rw [← h.registers] at hget
    have hprint' := Device.print_eq_ok_iff.2 ⟨by rwa [h.room], by rwa [h.flushes], rfl⟩
    refine ⟨_, .prn hget hprint', ?_, h.memory, h.registers, room_written h.room _ _ _, ?_⟩
    · show m₁.pc + 2 = m.pc + 2
      rw [h.pc]
    · show m₁.device.flushes.map (· - 1) = m.device.flushes.map (· - 1)
      rw [h.flushes]
  | alu happly =>
    rw [← h.registers] at happly
    refine ⟨_, .alu happly, ?_, h.memory, rfl, h.room, h.flushes⟩
    show m₁.pc + 3 = m.pc + 3
    rw [h.pc]
  | @push reg value hget =>
    rw [← h.lowered] at hget
    refine ⟨_, .push hget, ?_, ?_, h.lowered, h.room, h.flushes⟩
    · show m₁.pc + 2 = m.pc + 2
      rw [h.pc]
    · show m₁.memory.set (m₁.registers.sp - 1) value = m.memory.set (m.registers.sp - 1) value
      rw [h.memory, h.registers]
  | pop hset =>
    rw [← h.registers, ← h.top] at hset
    refine ⟨_, .pop hset, ?_, h.memory, rfl, h.room, h.flushes⟩
    show m₁.pc + 2 = m.pc + 2
    rw [h.pc]
  | call hfit hget =>
    rw [← h.lowered] at hget
    refine ⟨_, .call (by rwa [h.pc]) hget, rfl, ?_, h.lowered, h.room, h.flushes⟩
    show m₁.memory.set (m₁.registers.sp - 1) (UInt8.ofNat (m₁.pc + 2)) =
      m.memory.set (m.registers.sp - 1) (UInt8.ofNat (m.pc + 2))
    rw [h.memory, h.registers, h.pc]
  | ret =>
    refine ⟨_, .ret, ?_, h.memory, ?_, h.room, h.flushes⟩
    · show m₁.top.toNat = m.top.toNat
      rw [h.top]
    · show m₁.registers.setSp (m₁.registers.sp + 1) = m.registers.setSp (m.registers.sp + 1)
      rw [h.registers]

theorem Alike.step (h : Alike m m₁) (hm : m.GoesOn) :
    m₁.GoesOn ∧ Alike m.step.state m₁.step.state := by
  obtain ⟨i, hf, hi, hx⟩ := hm.executes
  obtain ⟨m₁', hx₁, halike⟩ := h.executes hx
  have hf₁ : m₁.fetch = .ok i := h.fetch.trans hf
  refine ⟨goesOn_of_executes hf₁ hi hx₁, ?_⟩
  rw [step_of_executes hf₁ hx₁]
  exact halike

/-- **A machine that is alike twice goes round in circles.** -/
theorem neverStops_of_alike (h : m.Proceeds k) (hjk : j < k)
    (halike : Alike (m.after j) (m.after k)) : m.NeverStops := by
  -- every state is like one before the `k`-th
  have hback : ∀ n, ∃ c, c < k ∧ Alike (m.after c) (m.after n) := by
    intro n
    induction n with
    | zero => exact ⟨0, Nat.zero_lt_of_lt hjk, .refl _⟩
    | succ n ih =>
      obtain ⟨c, hc, hsame⟩ := ih
      have hnext := (hsame.step (h c hc)).2
      rcases Nat.lt_or_eq_of_le (Nat.succ_le_of_lt hc) with hlt | heq
      · exact ⟨c + 1, hlt, hnext⟩
      · -- at the end of the round, go back to where it began
        refine ⟨j, hjk, ?_⟩
        have hend : Alike (m.after k) (m.after (n + 1)) := heq ▸ hnext
        exact ⟨hend.pc.trans halike.pc, hend.memory.trans halike.memory,
          hend.registers.trans halike.registers, hend.room.trans halike.room,
          hend.flushes.trans halike.flushes⟩
  intro n c _
  obtain ⟨c', hc', hsame⟩ := hback c
  exact (hsame.step (h c' hc')).1

/-! ## Counting -/

/-- A limit of which some has been used up is known by what is left. -/
theorem map_sub_inj {limit : Option Nat} {a b : Nat}
    (h : (limit.map (· - a)).getD 0 = (limit.map (· - b)).getD 0) :
    limit.map (· - a) = limit.map (· - b) := by
  cases limit with
  | none => rfl
  | some limit => exact congrArg some h

/-- Instructions use up the limits of the device and never change them. -/
theorem limits_of_executes (hx : Executes m i m') :
    m'.device.capacity = m.device.capacity ∧
      ∃ used, m'.device.flushes = m.device.flushes.map (· - used) := by
  cases hx with
  | prn hget hprint =>
    obtain ⟨-, -, rfl⟩ := Device.print_eq_ok_iff.1 hprint
    exact ⟨rfl, 1, rfl⟩
  | _ => exact ⟨rfl, 0, by simp⟩

theorem Proceeds.limits (h : m.Proceeds n) :
    (m.after n).device.capacity = m.device.capacity ∧
      ∃ used, (m.after n).device.flushes = m.device.flushes.map (· - used) := by
  induction n with
  | zero => exact ⟨rfl, 0, by simp⟩
  | succ n ih =>
    obtain ⟨hbefore, hlast⟩ := proceeds_succ.1 h
    obtain ⟨i, -, -, hx⟩ := hlast.executes
    obtain ⟨hcapacity, used, hused⟩ := ih hbefore
    obtain ⟨hcapacity', used', hused'⟩ := limits_of_executes hx
    refine ⟨hcapacity'.trans hcapacity, used + used', ?_⟩
    rw [after_succ, hused', hused, Option.map_map]
    exact congrArg (m.device.flushes.map ·) (funext fun left => Nat.sub_sub left used used')

/-- A machine that goes on has its program counter at 256 or below, and so it stays. -/
theorem Proceeds.pc_le (h : m.Proceeds n) (hn : 0 < n) (j : Nat) : (m.after j).pc ≤ size := by
  obtain ⟨i, hf, -, -⟩ := (h 0 hn).executes
  exact pc_after_le (Nat.le_of_lt (pc_lt_of_fetch hf)) j

/-- The values of the program counter, the cells, the registers and what is left of
two limits. -/
abbrev Configuration (room flushes : Nat) : Type :=
  Fin 257 × (Fin size → Fin 256) × (Fin Registers.count → Fin 256) ×
    Fin (room + 1) × Fin (flushes + 1)

theorem card_product (p v a b r s : Nat) :
    Fintype.card (Fin p × (Fin a → Fin v) × (Fin b → Fin v) × Fin (r + 1) × Fin (s + 1)) =
      p * Nat.pow v (a + b) * (r + 1) * (s + 1) := by
  rw [Fintype.card_prod, Fintype.card_prod, Fintype.card_prod, Fintype.card_prod,
    Fintype.card_fun, Fintype.card_fun]
  simp only [Fintype.card_fin]
  show _ = p * v ^ (a + b) * (r + 1) * (s + 1)
  ring

/-- The configuration of a machine. -/
def configuration (room flushes : Nat) (m : Machine) : Configuration room flushes :=
  (Fin.ofNat 257 m.pc, fun a => m.memory.cells[a].toFin, fun r => m.registers.slots[r].toFin,
    Fin.ofNat (room + 1) (m.device.room.getD 0), Fin.ofNat (flushes + 1) (m.device.flushes.getD 0))

theorem card_configuration (m : Machine) :
    Fintype.card (Configuration (m.device.capacity.getD 0) (m.device.flushes.getD 0)) =
      m.horizon := by
  unfold horizon configurations
  rw [card_product]

/-- A bounded number is known by its remainder. -/
theorem eq_of_ofNat_eq {b x y : Nat} (hx : x ≤ b) (hy : y ≤ b)
    (h : Fin.ofNat (b + 1) x = Fin.ofNat (b + 1) y) : x = y := by
  have hval : x % (b + 1) = y % (b + 1) := congrArg Fin.val h
  rwa [Nat.mod_eq_of_lt (Nat.lt_succ_of_le hx), Nat.mod_eq_of_lt (Nat.lt_succ_of_le hy)] at hval

/-- What is left of a limit is at most the limit. -/
theorem getD_map_sub_le (limit : Option Nat) (used : Nat) :
    (limit.map (· - used)).getD 0 ≤ limit.getD 0 := by
  cases limit with
  | none => exact Nat.le_refl 0
  | some limit => exact Nat.sub_le limit used

/-- Two states of one run with the same configuration are alike. -/
theorem alike_of_configuration_eq (h : m.Proceeds n) (hn : 0 < n) (hj : j ≤ n) (hk : k ≤ n)
    (heq : configuration (m.device.capacity.getD 0) (m.device.flushes.getD 0) (m.after j) =
      configuration (m.device.capacity.getD 0) (m.device.flushes.getD 0) (m.after k)) :
    Alike (m.after j) (m.after k) := by
  obtain ⟨hcapj, usedj, husedj⟩ := (h.mono hj).limits
  obtain ⟨hcapk, usedk, husedk⟩ := (h.mono hk).limits
  obtain ⟨hpc, hmemory, hregisters, hroom, hflushes⟩ : _ ∧ _ ∧ _ ∧ _ ∧ _ := by
    simpa only [configuration, Prod.mk.injEq] using heq
  -- both rooms are the capacity of the one device, less what was written
  have hroomj : (m.after j).device.room =
      m.device.capacity.map (· - (m.after j).device.written.size) := by
    rw [Device.room, hcapj]
  have hroomk : (m.after k).device.room =
      m.device.capacity.map (· - (m.after k).device.written.size) := by
    rw [Device.room, hcapk]
  refine ⟨?_, ?_, ?_, ?_, ?_⟩
  · exact (eq_of_ofNat_eq (h.pc_le hn j) (h.pc_le hn k) hpc).symm
  · have hcells : (m.after j).memory.cells = (m.after k).memory.cells :=
      Vector.ext fun a ha => UInt8.toFin_inj.1 (congrFun hmemory ⟨a, ha⟩)
    exact (congrArg Memory.mk hcells).symm
  · have hslots : (m.after j).registers.slots = (m.after k).registers.slots :=
      Vector.ext fun a ha => UInt8.toFin_inj.1 (congrFun hregisters ⟨a, ha⟩)
    exact (congrArg Registers.mk hslots).symm
  · rw [hroomj, hroomk] at hroom
    rw [hroomj, hroomk]
    exact (map_sub_inj (eq_of_ofNat_eq (getD_map_sub_le _ _) (getD_map_sub_le _ _) hroom)).symm
  · rw [husedj, husedk] at hflushes
    rw [husedj, husedk]
    exact (map_sub_inj
      (eq_of_ofNat_eq (getD_map_sub_le _ _) (getD_map_sub_le _ _) hflushes)).symm

/-- Of more states than there are configurations, two are alike. -/
theorem neverStops_of_card_le (h : m.Proceeds n) (hn : 0 < n)
    (hcard : Fintype.card
      (Configuration (m.device.capacity.getD 0) (m.device.flushes.getD 0)) ≤ n) :
    m.NeverStops := by
  have hlt : Fintype.card
      (Configuration (m.device.capacity.getD 0) (m.device.flushes.getD 0)) <
        Fintype.card (Fin (n + 1)) := by
    rw [Fintype.card_fin]
    exact Nat.lt_succ_of_le hcard
  obtain ⟨a, b, hne, heq⟩ := Fintype.exists_ne_map_eq_of_card_lt
    (fun c : Fin (n + 1) =>
      configuration (m.device.capacity.getD 0) (m.device.flushes.getD 0) (m.after c)) hlt
  have ha := Nat.le_of_lt_succ a.isLt
  have hb := Nat.le_of_lt_succ b.isLt
  rcases Nat.lt_or_gt_of_ne (Fin.val_ne_of_ne hne) with hab | hba
  · exact neverStops_of_alike (h.mono hb) hab (alike_of_configuration_eq h hn ha hb heq)
  · exact neverStops_of_alike (h.mono ha) hba (alike_of_configuration_eq h hn hb ha heq.symm)

theorem horizon_pos (m : Machine) : 0 < m.horizon := by
  have hpow : ∀ n, 0 < Nat.pow 256 n := fun n => Nat.pow_pos (by decide)
  unfold horizon configurations
  exact Nat.mul_pos (Nat.mul_pos (Nat.mul_pos (by decide) (hpow _)) (Nat.succ_pos _))
    (Nat.succ_pos _)

/-- **A machine that proceeds to its horizon never stops.** -/
theorem neverStops_of_proceeds_horizon (h : m.Proceeds m.horizon) : m.NeverStops :=
  neverStops_of_card_le h m.horizon_pos (Nat.le_of_eq (card_configuration m))

theorem lt_horizon_of_not_proceeds (h : m.Proceeds j) (hend : ¬ m.Proceeds (j + 1)) :
    j < m.horizon := by
  refine Nat.lt_of_not_le fun hle => hend ?_
  exact neverStops_of_proceeds_horizon (h.mono hle) (j + 1)

/-! ## The whole run -/

/-- A run that ends does so before the horizon. -/
theorem lt_horizon_of_start (h : m.start.Proceeds j) (hend : ¬ m.start.Proceeds (j + 1)) :
    j < m.horizon := by
  have hstart : m.start.horizon = m.horizon := by
    unfold horizon
    rfl
  rw [← hstart]
  exact lt_horizon_of_not_proceeds h hend

theorem ended?_of_stopped {outcome : Outcome Machine} (h : outcome.state.status = .stopped) :
    ended? outcome = some outcome := by
  simp only [ended?, h]

theorem ended?_of_running {outcome : Outcome Machine} (h : outcome.state.status = .running) :
    ended? outcome = none := by
  simp only [ended?, h]

theorem run?_of_haltsAt (h : m.start.HaltsAt k) : m.run? = some ⟨m.start.after k, none⟩ := by
  obtain ⟨j, rfl, hbefore, hx, -⟩ := h.executes
  have hj : j < m.horizon := lt_horizon_of_start hbefore h.not_proceeds
  rw [run?, h.runFor rfl (Nat.succ_le_of_lt hj)]
  exact ended?_of_stopped (status_of_executes_hlt hx)

theorem run?_of_faultsAt (h : m.start.FaultsAt k f) :
    m.run? = some ⟨m.start.after (k + 1), some f⟩ := by
  have hk : k < m.horizon := lt_horizon_of_start h.1 h.not_proceeds
  rw [run?, h.runFor rfl hk]
  exact ended?_of_stopped (status_of_fault h.2)

theorem run?_of_neverStops (h : m.start.NeverStops) : m.run? = none := by
  rw [run?, (h m.horizon).runFor rfl]
  exact ended?_of_running ((h m.horizon).status rfl)

/-- **The run of a machine has no result exactly if the machine never stops.** -/
theorem run?_eq_none_iff : m.run? = none ↔ m.start.NeverStops := by
  constructor
  · intro h
    rcases ends_or_neverStops m.start with ⟨k, hhalts⟩ | ⟨k, f, hfaults⟩ | hnever
    · rw [run?_of_haltsAt hhalts] at h
      cases h
    · rw [run?_of_faultsAt hfaults] at h
      cases h
    · exact hnever
  · exact run?_of_neverStops

theorem run?_of_not_goesOn (h : m.start.Proceeds k) (hend : ¬ (m.start.after k).GoesOn) :
    m.run? = some (m.start.after k).step := by
  rcases not_goesOn hend with hhlt | ⟨f, hf⟩
  · have hhalts : m.start.HaltsAt (k + 1) := ⟨k, rfl, h, hhlt⟩
    rw [run?_of_haltsAt hhalts, after_succ, step_of_executes hhlt .hlt]
  · have hfaults : m.start.FaultsAt k f := ⟨h, hf⟩
    rw [run?_of_faultsAt hfaults, hfaults.step_eq]

/-- **A run has the result of the first step after which the machine does not go on.** -/
theorem run?_eq_some_iff {outcome : Outcome Machine} : m.run? = some outcome ↔
    ∃ k, m.start.Proceeds k ∧ ¬ (m.start.after k).GoesOn ∧ (m.start.after k).step = outcome := by
  constructor
  · intro h
    rcases ends_or_neverStops m.start with ⟨k, j, rfl, hbefore, hhlt⟩ | ⟨k, f, hbefore, hf⟩ | hnever
    · have hend : ¬ (m.start.after j).GoesOn := fun hgoes => hgoes.2 hhlt
      rw [run?_of_not_goesOn hbefore hend] at h
      exact ⟨j, hbefore, hend, Option.some.inj h⟩
    · have hend : ¬ (m.start.after k).GoesOn := by
        intro hgoes
        rw [hgoes.1] at hf
        cases hf
      rw [run?_of_not_goesOn hbefore hend] at h
      exact ⟨k, hbefore, hend, Option.some.inj h⟩
    · rw [run?_of_neverStops hnever] at h
      cases h
  · rintro ⟨k, h, hend, rfl⟩
    exact run?_of_not_goesOn h hend

end LS8.Machine
