import LS8.Machine.Trace
import LS8.Proofs.Machine.Course

/-!
# Profiles and runs

A profile only observes. `Machine.withProfile` is the machine with another profile, or with
none. Its steps report the same and leave the same machine but for the profile, which has
counted the instructions that were decoded:

- `Machine.step_withProfile`: one step;
- `Machine.after_withProfile`: many steps, where `Machine.executed` are the opcodes of the
  instructions decoded in them, the first one first.

So a machine runs the same course whether its instructions are counted or not
(`Machine.haltsAt_withProfile_iff` and its like).
-/

namespace LS8

/-- Counts the given executions, one after the other. -/
def Profile.recordAll (p : Profile) (os : List Opcode) : Profile :=
  os.foldl Profile.record p

namespace Machine

variable {m m' : Machine} {i : Instruction} {f : Fault} {p : Option Profile} {n k : Nat}

/-- The machine with another profile, or with none. -/
def withProfile (m : Machine) (p : Option Profile) : Machine :=
  { m with profile := p }

/-- The opcode that the next step counts, if it decodes an instruction. -/
def counted? (m : Machine) : Option Opcode :=
  m.fetch.toOption.map (·.opcode)

/-- The opcodes of the instructions that the first `n` steps decode. -/
def executed (m : Machine) (n : Nat) : List Opcode :=
  (List.range n).filterMap fun j => (m.after j).counted?

theorem counted?_of_fetch (hf : m.fetch = .ok i) : m.counted? = some i.opcode := by
  rw [counted?, hf]
  rfl

theorem counted?_of_fetch_error (hf : m.fetch = .error f) : m.counted? = none := by
  rw [counted?, hf]
  rfl

theorem executed_succ (m : Machine) (n : Nat) :
    m.executed (n + 1) = m.executed n ++ (m.after n).counted?.toList := by
  rw [executed, List.range_succ, List.filterMap_append, ← executed]
  cases h : (m.after n).counted? <;> simp [h]

/-! ## Steps -/

theorem executes_withProfile (hx : Executes m i m') (p : Option Profile) :
    Executes (m.withProfile p) i (m'.withProfile (p.map (·.record i.opcode))) := by
  cases hx with
  | hlt => exact .hlt
  | ldi hset => exact .ldi hset
  | prn hget hprint => exact .prn hget hprint
  | alu happly => exact .alu happly
  | push hget => exact .push hget
  | pop hset => exact .pop hset
  | call hfit hget => exact .call hfit hget
  | ret => exact .ret

/-- An instruction that is refused has been counted all the same. -/
theorem refuses_withProfile (hx : Refuses m i f m') (p : Option Profile) :
    Refuses (m.withProfile p) i f (m'.withProfile (p.map (·.record i.opcode))) := by
  cases hx with
  | ldi hset => exact .ldi hset
  | prn hget => exact .prn hget
  | output hget hprint => exact .output hget hprint
  | alu happly => exact .alu happly
  | push hget => exact .push hget
  | pop hset => exact .pop hset
  | returnAddress hfit => exact .returnAddress hfit
  | call hfit hget => exact .call hfit hget

/-- **A step does the same with every profile**, and counts the instruction that it decodes. -/
theorem step_withProfile (m : Machine) (p : Option Profile) :
    (m.withProfile p).step =
      ⟨m.step.state.withProfile (p.map (·.recordAll m.counted?.toList)), m.step.fault⟩ := by
  cases hf : m.fetch with
  | error f =>
    have hf' : (m.withProfile p).fetch = .error f := hf
    rw [step_of_fetch_error hf, step_of_fetch_error hf', counted?_of_fetch_error hf]
    cases p <;> rfl
  | ok i =>
    have hf' : (m.withProfile p).fetch = .ok i := hf
    rw [counted?_of_fetch hf]
    rcases executes_or_refuses m i with ⟨m', hx⟩ | ⟨f, m', hx⟩
    · rw [step_of_executes hf hx, step_of_executes hf' (executes_withProfile hx p)]
      rfl
    · rw [step_of_refuses hf hx, step_of_refuses hf' (refuses_withProfile hx p)]
      rfl

/-- **Many steps do the same with every profile**, by induction on their number. -/
theorem after_withProfile (m : Machine) (p : Option Profile) (n : Nat) :
    (m.withProfile p).after n =
      (m.after n).withProfile (p.map (·.recordAll (m.executed n))) := by
  induction n with
  | zero => cases p <;> rfl
  | succ n ih =>
    rw [after_succ, ih, step_withProfile, after_succ, executed_succ, Option.map_map]
    simp only [Function.comp_def, Profile.recordAll, List.foldl_append]

/-! ## Runs -/

theorem goesOn_withProfile_iff : (m.withProfile p).GoesOn ↔ m.GoesOn := by
  rw [GoesOn, GoesOn, step_withProfile]
  rfl

theorem proceeds_withProfile_iff : (m.withProfile p).Proceeds n ↔ m.Proceeds n := by
  have hall : ∀ j, ((m.withProfile p).after j).GoesOn ↔ (m.after j).GoesOn := by
    intro j
    rw [after_withProfile, goesOn_withProfile_iff]
  exact forall₂_congr fun j _ => hall j

theorem haltsAt_withProfile_iff : (m.withProfile p).HaltsAt k ↔ m.HaltsAt k := by
  have hfetch : ∀ j, ((m.withProfile p).after j).fetch = (m.after j).fetch := by
    intro j
    rw [after_withProfile]
    rfl
  simp only [HaltsAt, proceeds_withProfile_iff, hfetch]

theorem faultsAt_withProfile_iff : (m.withProfile p).FaultsAt k f ↔ m.FaultsAt k f := by
  rw [FaultsAt, FaultsAt, proceeds_withProfile_iff, after_withProfile, step_withProfile]

theorem neverStops_withProfile_iff : (m.withProfile p).NeverStops ↔ m.NeverStops :=
  forall_congr' fun _ => proceeds_withProfile_iff

theorem traceLine_withProfile (m : Machine) (p : Option Profile) :
    (m.withProfile p).traceLine = m.traceLine :=
  rfl

/-- A machine that an image was loaded into, with and without a profile. -/
theorem loaded_eq_withProfile (device : Device) (image : Image) (profiling : Bool) :
    loaded device profiling image =
      (loaded device false image).withProfile (if profiling then some .empty else none) :=
  rfl

end Machine

end LS8
