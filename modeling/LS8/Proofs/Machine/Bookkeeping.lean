import LS8.Proofs.Machine.Aftermath
import LS8.Proofs.Machine.Chronicle
import LS8.Proofs.Profile.Counts

/-!
# What a machine counts

A machine counts the instructions that it decodes, and a profile counts them by opcode. Whatever
is done to a machine, both counts are those of the steps in its chronicle:

- `Machine.perform?_withProfile`: an operation does the same with every profile, and leaves it
  with the opcodes of the events of the operation recorded;
- `Machine.steps_of_perform?`: so does the counter of steps;
- `Machine.profile_counts_attempts`: what this means for a machine from power-on on.
-/

namespace LS8.Machine

variable {m : Machine} {op : Operation} {ops : List Operation} {outcome : Outcome Machine}
  {p : Option Profile} {n : Nat}

/-- The opcode that a step decoded, if it decoded one. -/
def Event.opcode? : Event → Option Opcode
  | started => none
  | stepped decoded _ => decoded.toOption.map (·.opcode)

/-- The opcodes that were decoded, one for each step that got so far. -/
def decodedIn (events : List Event) : List Opcode :=
  events.filterMap Event.opcode?

theorem decodedIn_append (es es' : List Event) :
    decodedIn (es ++ es') = decodedIn es ++ decodedIn es' :=
  List.filterMap_append

theorem decodedIn_stepEvents (m : Machine) (n : Nat) :
    decodedIn (m.stepEvents n) = m.executed n := by
  rw [decodedIn, stepEvents, List.filterMap_map]
  rfl

/-- How often an opcode was decoded. -/
theorem count_decodedIn (es : List Event) (o : Opcode) :
    (decodedIn es).count o = es.countP fun event => event.opcode? == some o := by
  rw [List.count_eq_countP, decodedIn, List.countP_filterMap]
  refine List.countP_congr fun event _ => ?_
  cases event.opcode? <;> simp

/-! ## One operation -/

theorem steps_step (m : Machine) : m.step.state.steps = m.steps + m.counted?.toList.length := by
  cases hf : m.fetch with
  | error f =>
    rw [step_of_fetch_error hf, counted?_of_fetch_error hf]
    rfl
  | ok i =>
    rw [counted?_of_fetch hf]
    rcases executes_or_refuses m i with ⟨m', hx⟩ | ⟨f, m', hx⟩
    · rw [step_of_executes hf hx]
      exact steps_of_executes hx
    · rw [step_of_refuses hf hx]
      exact steps_of_refuses hx

theorem steps_after (m : Machine) (n : Nat) :
    (m.after n).steps = m.steps + (m.executed n).length := by
  induction n with
  | zero => rfl
  | succ n ih => rw [after_succ, steps_step, ih, executed_succ, List.length_append, Nat.add_assoc]

/-- The counter of steps goes on by the instructions that an operation decodes. -/
theorem steps_of_perform? (h : m.perform? op = some outcome) :
    outcome.state.steps = m.steps + (decodedIn (m.events op)).length := by
  cases op with
  | step =>
    obtain rfl := Option.some.inj h
    exact (steps_after m 1).trans (by rw [← decodedIn_stepEvents]; rfl)
  | run =>
    obtain ⟨k, -, -, rfl, hevents⟩ := exists_events_run h
    have hsteps := steps_after m.start (k + 1)
    rw [← decodedIn_stepEvents] at hsteps
    rw [hevents]
    exact hsteps
  | poke address value =>
    obtain rfl := Option.some.inj h
    unfold poke
    cases m.memory.write address value <;> rfl
  | _ =>
    obtain rfl := Option.some.inj h
    rfl

theorem traceFor_withProfile (m : Machine) (p : Option Profile) (n : Nat) :
    ((m.withProfile p).traceFor n).1 = (m.traceFor n).1 := by
  induction n generalizing m p with
  | zero => rfl
  | succ n ih =>
    cases hm : m.status with
    | stopped =>
      have hm' : (m.withProfile p).status = .stopped := hm
      rw [traceFor_of_stopped hm, traceFor_of_stopped hm']
    | running =>
      have hm' : (m.withProfile p).status = .running := hm
      by_cases hgoes : m.GoesOn
      · rw [traceFor_of_goesOn hm hgoes, traceFor_of_goesOn hm' (goesOn_withProfile_iff.2 hgoes),
          step_withProfile, traceLine_withProfile, ih]
      · rw [traceFor_of_not_goesOn hm hgoes,
          traceFor_of_not_goesOn hm' (mt goesOn_withProfile_iff.1 hgoes), traceLine_withProfile]

theorem stepEvents_withProfile (m : Machine) (p : Option Profile) (n : Nat) :
    (m.withProfile p).stepEvents n = m.stepEvents n := by
  refine List.map_congr_left fun j _ => ?_
  rw [stepEvent, after_withProfile, step_withProfile]
  rfl

/-- What happens in an operation does not depend on the profile. -/
theorem events_withProfile (m : Machine) (p : Option Profile) (op : Operation) :
    (m.withProfile p).events op = m.events op := by
  cases op with
  | step => exact stepEvents_withProfile m p 1
  | run =>
    have hstart : (m.withProfile p).start = m.start.withProfile p := rfl
    have hhorizon : (m.withProfile p).horizon = m.horizon := by
      unfold horizon
      rfl
    rw [events, events, attempts, attempts, hstart, hhorizon, traceFor_withProfile,
      stepEvents_withProfile]
  | _ => rfl

/-- **An operation does the same with every profile**, and counts the instructions that it
decodes. -/
theorem perform?_withProfile (m : Machine) (p : Option Profile) (op : Operation) :
    (m.withProfile p).perform? op = (m.perform? op).map fun outcome =>
      ⟨outcome.state.withProfile (p.map (·.recordAll (decodedIn (m.events op)))),
        outcome.fault⟩ := by
  cases op with
  | step => exact congrArg some (step_withProfile m p)
  | run =>
    have hstart : (m.withProfile p).start = m.start.withProfile p := rfl
    rw [perform?, perform?]
    cases hrun : m.run? with
    | none =>
      rw [Option.map_none, run?_eq_none_iff, hstart, neverStops_withProfile_iff]
      exact run?_eq_none_iff.1 hrun
    | some outcome =>
      obtain ⟨k, hk, hend, rfl, hevents⟩ := exists_events_run hrun
      have hafter : (m.withProfile p).start.after k =
          (m.start.after k).withProfile (p.map (·.recordAll (m.start.executed k))) := by
        rw [hstart, after_withProfile]
      have hk' : (m.withProfile p).start.Proceeds k := by
        rwa [hstart, proceeds_withProfile_iff]
      have hend' : ¬ ((m.withProfile p).start.after k).GoesOn := by
        rwa [hafter, goesOn_withProfile_iff]
      have hdecoded : decodedIn (.started :: m.start.stepEvents (k + 1)) =
          m.start.executed (k + 1) :=
        decodedIn_stepEvents m.start (k + 1)
      rw [run?_of_not_goesOn hk' hend', hafter, step_withProfile, hevents, hdecoded, executed_succ]
      simp only [Option.map_map, Option.map_some, Function.comp_def, Profile.recordAll,
        List.foldl_append]
  | poke address value =>
    show some ((m.withProfile p).poke address value) = some _
    unfold poke
    cases p <;> cases h : m.memory.write address value <;> simp [withProfile, h] <;> rfl
  | _ => cases p <;> rfl

theorem profile_of_perform? (h : m.perform? op = some outcome) :
    outcome.state.profile = m.profile.map (·.recordAll (decodedIn (m.events op))) := by
  have hsame := perform?_withProfile m m.profile op
  have hm : m.withProfile m.profile = m := rfl
  rw [hm, h, Option.map_some] at hsame
  exact congrArg (·.state.profile) (Option.some.inj hsame)

/-! ## Chronicles -/

namespace Chronicle

variable {c c' : Chronicle}

/-- The same without a profile. -/
def withoutProfile (c : Chronicle) : Chronicle :=
  { c with machine := c.machine.withProfile none }

theorem next?_withoutProfile (c : Chronicle) (op : Operation) :
    c.withoutProfile.next? op = (c.next? op).map withoutProfile := by
  have hmachine : c.withoutProfile.machine = c.machine.withProfile none := rfl
  rw [next?, next?, hmachine, perform?_withProfile, events_withProfile, Option.map_map,
    Option.map_map]
  rfl

/-- **A chronicle is the same without a profile**, by induction on the operations. -/
theorem follow?_withoutProfile (c : Chronicle) (ops : List Operation) :
    c.withoutProfile.follow? ops = (c.follow? ops).map withoutProfile := by
  induction ops generalizing c with
  | nil => rfl
  | cons op ops ih =>
    rw [follow?, follow?, next?_withoutProfile]
    cases c.next? op with
    | none => rfl
    | some c₁ => exact ih c₁

/-- The profile and the counter of steps are those of the events. -/
structure Counted (c : Chronicle) : Prop where
  profile : c.machine.profile = some (Profile.empty.recordAll (decodedIn c.events))
  steps : c.machine.steps = (decodedIn c.events).length

theorem Counted.next? (h : c.Counted) (hop : c.next? op = some c') : c'.Counted := by
  obtain ⟨outcome, houtcome, rfl⟩ := next?_eq_some_iff.1 hop
  constructor
  · show outcome.state.profile = some (Profile.empty.recordAll (decodedIn (_ ++ _)))
    rw [profile_of_perform? houtcome, h.profile, decodedIn_append, Profile.recordAll,
      Profile.recordAll, Option.map_some, List.foldl_append]
    rfl
  · show outcome.state.steps = (decodedIn (_ ++ _)).length
    rw [steps_of_perform? houtcome, h.steps, decodedIn_append, List.length_append]

end Chronicle

/-- **A machine with a profile counts what it decodes.** Whatever is done to it from power-on on,
and whatever of it fails, the total of its profile is its counter of steps and the sum of all
counts, and each opcode was counted once for every attempted step that decoded it, if the step
then faulted or not. A machine without a profile does the same: it reports the same, the same
happens to it, and it differs by the profile only. -/
theorem profile_counts_attempts (device : Device) (ops : List Operation) :
    (∀ c, (initial device true).chronicle? ops = some c →
      ∃ p, c.machine.profile = some p ∧ p.total = c.machine.steps ∧ p.total = p.sum ∧
        ∀ o, p.count o = c.events.countP fun event => event.opcode? == some o) ∧
    (initial device false).chronicle? ops =
      ((initial device true).chronicle? ops).map Chronicle.withoutProfile := by
  refine ⟨fun c h => ?_, ?_⟩
  · have hnew : Chronicle.Counted { machine := initial device true } := ⟨rfl, rfl⟩
    have hc : c.Counted := Chronicle.follow?_induction (fun _ _ _ => Chronicle.Counted.next?) hnew h
    refine ⟨_, hc.profile, ?_, ?_, fun o => ?_⟩
    · rw [Profile.total_recordAll, hc.steps]
      exact Nat.zero_add _
    · rw [Profile.total_recordAll, Profile.sum_recordAll, Profile.sum_empty]
      rfl
    · rw [Profile.count_recordAll, Profile.count_empty, Nat.zero_add, count_decodedIn]
  · exact Chronicle.follow?_withoutProfile { machine := initial device true } ops

/-- A program that is loaded with a byte missing, stepped, run until it pushes a register that
does not exist, and stepped at an address without an instruction. -/
def mishandled : List Operation :=
  [.load ⟨[0x82, 0, 8, 0x45]⟩, .poke 256 9, .poke 4 9, .step, .run, .setPc 255, .step]

theorem profile_counts_attempts_mishandled :
    ∃ c p, (initial {} true).chronicle? mishandled = some c ∧ c.machine.profile = some p ∧
      c.reports = [none, some (.outOfBounds 256), none, none, some (.invalidRegister 9), none,
        some (.unknownOpcode 0 255)] ∧
      p.total = 2 ∧ p.sum = 2 ∧ p.count .ldi = 1 ∧ p.count .push = 1 := by
  obtain ⟨c, hc⟩ : ∃ c, (initial {} true).chronicle? mishandled = some c :=
    Option.isSome_iff_exists.1 (by decide +kernel)
  have hreports : ((initial {} true).chronicle? mishandled).map (·.reports) =
      some [none, some (.outOfBounds 256), none, none, some (.invalidRegister 9), none,
        some (.unknownOpcode 0 255)] := by
    decide +kernel
  have hsteps : ((initial {} true).chronicle? mishandled).map (·.machine.steps) = some 2 := by
    decide +kernel
  have hevents : ((initial {} true).chronicle? mishandled).map (decodedIn ·.events) =
      some [.ldi, .push] := by
    decide +kernel
  rw [hc, Option.map_some] at hreports hsteps hevents
  obtain ⟨hcounts, -⟩ := profile_counts_attempts {} mishandled
  obtain ⟨p, hp, htotal, hsum, hcount⟩ := hcounts c hc
  have htwo : p.total = 2 := htotal.trans (Option.some.inj hsteps)
  refine ⟨c, p, hc, hp, Option.some.inj hreports, htwo, hsum.symm.trans htwo, ?_, ?_⟩
  · rw [hcount, ← count_decodedIn, Option.some.inj hevents]
    rfl
  · rw [hcount, ← count_decodedIn, Option.some.inj hevents]
    rfl

end LS8.Machine
