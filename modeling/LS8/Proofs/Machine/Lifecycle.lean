import LS8.Proofs.Machine.Chronicle

/-!
# Running and stopped

A machine is running if it was started and nothing has stopped it since: it has not halted and
no step has faulted (`Machine.Underway`). Nothing else that is done to a machine has a say in it.

- `Machine.status_after_iff`: along steps, by induction on their number;
- `Machine.step_withStatus`: a machine that is stopped steps like one that is running, but stays
  stopped;
- `Machine.run?_eq_ok_iff` and `Machine.run?_eq_fault_iff`: a run ends with the first step that
  stops the machine, and reports what that step reports;
- `Machine.running_iff_underway`: all of it, for whatever is done to a machine from power-on on.
-/

namespace LS8.Machine

variable {m m' : Machine} {i : Instruction} {f : Fault} {s : Status} {op : Operation}
  {outcome : Outcome Machine} {event : Event} {es : List Event} {n k : Nat}

/-! ## What stops a machine -/

/-- The event stops a running machine: a step that halts, or one that faults. -/
def Event.Stops : Event → Prop
  | started => False
  | stepped decoded fault => decoded = .ok .hlt ∨ fault ≠ none

/-- There was a start, and nothing has stopped the machine since the latest one. -/
def Underway (events : List Event) : Prop :=
  ∃ before since, events = before ++ .started :: since ∧ .started ∉ since ∧
    ∀ event ∈ since, ¬ event.Stops

theorem stops_stepEvent_iff : m.stepEvent.Stops ↔ ¬ m.GoesOn := by
  rw [stepEvent, Event.Stops, GoesOn, Classical.not_and_iff_not_or_not, not_not, or_comm]

theorem not_underway_nil : ¬ Underway [] := by
  rintro ⟨before, since, h, -⟩
  exact absurd h.symm (List.append_ne_nil_of_right_ne_nil _ (List.cons_ne_nil _ _))

theorem underway_concat_started : Underway (es ++ [.started]) :=
  ⟨es, [], rfl, List.not_mem_nil, nofun⟩

/-- After another event the machine is underway if it was before and the event does not stop
it. -/
theorem underway_concat (hevent : event ≠ .started) :
    Underway (es ++ [event]) ↔ Underway es ∧ ¬ event.Stops := by
  constructor
  · rintro ⟨before, since, h, hstarted, hsince⟩
    -- the latest start is not the last event, so something came after it
    rcases List.eq_nil_or_concat since with rfl | ⟨earlier, last, rfl⟩
    · obtain ⟨-, hlast⟩ := List.append_inj' h rfl
      exact absurd (List.cons.inj hlast).1 hevent
    · have hassoc : es ++ [event] = (before ++ .started :: earlier) ++ [last] := by
        rw [h, List.append_assoc, List.cons_append, List.concat_eq_append]
      obtain ⟨rfl, hlast⟩ := List.append_inj' hassoc rfl
      obtain rfl := (List.cons.inj hlast).1
      rw [List.concat_eq_append] at hstarted hsince
      exact ⟨⟨before, earlier, rfl, fun hmem => hstarted (List.mem_append_left _ hmem),
        fun e he => hsince e (List.mem_append_left _ he)⟩,
        hsince event (List.mem_append_right _ List.mem_cons_self)⟩
  · rintro ⟨⟨before, since, rfl, hstarted, hsince⟩, hstops⟩
    refine ⟨before, since ++ [event], by rw [List.append_assoc, List.cons_append], ?_, ?_⟩
    · rw [List.mem_append, List.mem_singleton, not_or]
      exact ⟨hstarted, Ne.symm hevent⟩
    · intro e he
      rcases List.mem_append.1 he with he | he
      · exact hsince e he
      · rwa [List.mem_singleton.1 he]

/-! ## Along operations -/

theorem running_step_iff :
    m.step.state.status = .running ↔ m.status = .running ∧ ¬ m.stepEvent.Stops := by
  rw [status_step, stops_stepEvent_iff, not_not]
  by_cases hgoes : m.GoesOn
  · rw [if_pos hgoes]
    exact (and_iff_left hgoes).symm
  · rw [if_neg hgoes]
    exact ⟨nofun, fun h => absurd h.2 hgoes⟩

/-- Steps go on with what the events so far say. -/
theorem status_after_iff (h : m.status = .running ↔ Underway es) (n : Nat) :
    (m.after n).status = .running ↔ Underway (es ++ m.stepEvents n) := by
  induction n with
  | zero => rwa [stepEvents, List.range_zero, List.map_nil, List.append_nil]
  | succ n ih =>
    have hstepped : (m.after n).stepEvent ≠ .started := by
      intro h
      cases h
    rw [after_succ, running_step_iff, ih, stepEvents_succ, ← List.append_assoc,
      underway_concat hstepped]

theorem status_load (m : Machine) (image : Image) : (m.load image).state.status = m.status :=
  rfl

theorem status_poke (m : Machine) (address : Nat) (value : UInt8) :
    (m.poke address value).state.status = m.status := by
  unfold poke
  cases m.memory.write address value <;> rfl

/-- Every operation goes on with what the events so far say. -/
theorem status_of_perform? (h : m.status = .running ↔ Underway es)
    (hop : m.perform? op = some outcome) :
    outcome.state.status = .running ↔ Underway (es ++ m.events op) := by
  cases op with
  | start =>
    obtain rfl := Option.some.inj hop
    exact iff_of_true rfl underway_concat_started
  | step =>
    obtain rfl := Option.some.inj hop
    exact status_after_iff h 1
  | run =>
    obtain ⟨k, -, -, rfl, hevents⟩ := exists_events_run hop
    have hstart : m.start.status = .running ↔ Underway (es ++ [.started]) :=
      iff_of_true rfl underway_concat_started
    rw [hevents, ← List.singleton_append, ← List.append_assoc]
    exact status_after_iff hstart (k + 1)
  | poke address value =>
    obtain rfl := Option.some.inj hop
    rw [status_poke]
    rwa [events, List.append_nil]
  | _ =>
    obtain rfl := Option.some.inj hop
    rwa [events, List.append_nil]

/-! ## Steps while stopped -/

/-- The machine with another status. -/
def withStatus (m : Machine) (s : Status) : Machine :=
  { m with status := s }

theorem executes_withStatus (hx : Executes m i m') (hi : i ≠ .hlt) (s : Status) :
    Executes (m.withStatus s) i (m'.withStatus s) := by
  cases hx with
  | hlt => exact absurd rfl hi
  | ldi hset => exact .ldi hset
  | prn hget hprint => exact .prn hget hprint
  | alu happly => exact .alu happly
  | push hget => exact .push hget
  | pop hset => exact .pop hset
  | call hfit hget => exact .call hfit hget
  | ret => exact .ret

/-- What is refused leaves the machine stopped, whether it was running or not. -/
theorem refuses_withStatus (hx : Refuses m i f m') (s : Status) :
    Refuses (m.withStatus s) i f m' := by
  cases hx with
  | ldi hset => exact .ldi hset
  | prn hget => exact .prn hget
  | output hget hprint => exact .output hget hprint
  | alu happly => exact .alu happly
  | push hget => exact .push hget
  | pop hset => exact .pop hset
  | returnAddress hfit => exact .returnAddress hfit
  | call hfit hget => exact .call hfit hget

/-- **A step does the same whatever the status**, the status apart. -/
theorem step_withStatus (m : Machine) (s : Status) :
    (m.withStatus s).step =
      ⟨m.step.state.withStatus (if m.GoesOn then s else .stopped), m.step.fault⟩ := by
  by_cases hgoes : m.GoesOn
  · obtain ⟨i, hf, hi, hx⟩ := hgoes.executes
    have hf' : (m.withStatus s).fetch = .ok i := hf
    rw [if_pos hgoes, hgoes.1]
    exact step_of_executes hf' (executes_withStatus hx hi s)
  · rw [if_neg hgoes]
    rcases not_goesOn hgoes with hhlt | ⟨f, hfault⟩
    · have hhlt' : (m.withStatus s).fetch = .ok .hlt := hhlt
      rw [step_of_executes hhlt .hlt, step_of_executes hhlt' .hlt]
      rfl
    · have hstep : m.step = ⟨m.step.state, some f⟩ := by rw [← hfault]
      rcases step_eq_fault_iff.1 hstep with ⟨hf, hm'⟩ | ⟨i, hf, hx⟩
      · have hf' : (m.withStatus s).fetch = .error f := hf
        rw [step_of_fetch_error hf, step_of_fetch_error hf']
        rfl
      · have hf' : (m.withStatus s).fetch = .ok i := hf
        rw [step_of_refuses hf' (refuses_withStatus hx s), hfault, withStatus,
          ← status_of_refuses hx]

/-- A stopped machine executes its next instruction as it would if it was running, and stays
stopped. -/
theorem step_of_stopped (hm : m.status = .stopped) :
    m.step = ⟨m.start.step.state.stop, m.start.step.fault⟩ := by
  have hsame : m = m.start.withStatus .stopped := by
    rw [withStatus, ← hm]
    rfl
  conv => lhs; rw [hsame, step_withStatus, ite_self]
  rfl

/-! ## Runs -/

/-- What halting leaves behind. -/
theorem step_of_hlt (h : m.fetch = .ok .hlt) :
    m.step = ⟨{ m.count .hlt with status := .stopped, pc := m.pc + 1 }, none⟩ :=
  step_of_executes h .hlt

/-- **A run goes well exactly if it comes to a halt.** -/
theorem run?_eq_ok_iff : m.run? = some ⟨m', none⟩ ↔
    ∃ k, m.start.Proceeds k ∧ (m.start.after k).fetch = .ok .hlt ∧
      (m.start.after k).step = ⟨m', none⟩ := by
  rw [run?_eq_some_iff]
  refine exists_congr fun k => and_congr_right fun _ => and_congr_left fun hstep => ?_
  constructor
  · intro hend
    rcases not_goesOn hend with hhlt | ⟨f, hf⟩
    · exact hhlt
    · rw [hstep] at hf
      cases hf
  · exact fun hhlt hgoes => hgoes.2 hhlt

/-- **A run reports a fault exactly if it comes to it**, after steps that succeed and do not
halt. -/
theorem run?_eq_fault_iff : m.run? = some ⟨m', some f⟩ ↔
    ∃ k, m.start.Proceeds k ∧ (m.start.after k).step = ⟨m', some f⟩ := by
  rw [run?_eq_some_iff]
  refine exists_congr fun k => and_congr_right fun _ => and_iff_right_of_imp ?_
  intro hstep hgoes
  have hfault := hgoes.1
  rw [hstep] at hfault
  cases hfault

theorem status_of_run? (h : m.run? = some outcome) : outcome.state.status = .stopped := by
  obtain ⟨hrun, hstopped⟩ := ended?_eq_some_iff.1 h
  rwa [hrun] at hstopped

/-- **When a machine is running.** Whatever is done to it from power-on on, it is running exactly
if there was a start, its own or that of a run, and since the latest one no step has halted or
faulted. Loading and writing to memory, be it with a fault, do not change the status, and a step
of a stopped machine does all that it would do of a running one, but leaves it stopped. A run that
returns has taken steps that succeed without halting and then one more, whose outcome is its own,
and it leaves the machine stopped. It goes well exactly if that last step halts; the machine is
then behind the halt, and there another run goes on. And it reports a fault exactly if its last
step does. -/
theorem running_iff_underway :
    (∀ (device : Device) (profiling : Bool) (ops : List Operation) (c : Chronicle),
      (initial device profiling).chronicle? ops = some c →
        (c.machine.status = .running ↔ Underway c.events)) ∧
    (∀ (m : Machine) (image : Image), (m.load image).state.status = m.status) ∧
    (∀ (m : Machine) (address : Nat) (value : UInt8),
      (m.poke address value).state.status = m.status) ∧
    (∀ m : Machine, m.status = .stopped →
      m.step = ⟨m.start.step.state.stop, m.start.step.fault⟩) ∧
    (∀ (m : Machine) (outcome : Outcome Machine), m.run? = some outcome →
      outcome.state.status = .stopped ∧
      ∃ k, m.start.Proceeds k ∧ outcome = (m.start.after k).step ∧
        m.events .run = .started :: m.start.stepEvents (k + 1)) ∧
    (∀ m m' : Machine, m.run? = some ⟨m', none⟩ ↔
      ∃ k, m.start.Proceeds k ∧ (m.start.after k).fetch = .ok .hlt ∧
        (m.start.after k).step = ⟨m', none⟩) ∧
    (∀ m m' : Machine, m.fetch = .ok .hlt → m.step = ⟨m', none⟩ →
      m'.pc = m.pc + 1 ∧ m'.start.fetch = Instruction.decode m.memory (m.pc + 1)) ∧
    ∀ (m m' : Machine) (f : Fault), m.run? = some ⟨m', some f⟩ ↔
      ∃ k, m.start.Proceeds k ∧ (m.start.after k).step = ⟨m', some f⟩ := by
  refine ⟨fun device profiling ops c h => ?_, status_load, status_poke,
    fun m hm => step_of_stopped hm, fun m outcome h => ⟨status_of_run? h, ?_⟩,
    fun m m' => run?_eq_ok_iff, fun m m' hhlt hstep => ?_, fun m m' f => run?_eq_fault_iff⟩
  · have hnew : (initial device profiling).status = .running ↔ Underway [] :=
      iff_of_false nofun not_underway_nil
    refine Chronicle.follow?_induction
      (P := fun c => c.machine.status = .running ↔ Underway c.events) ?_ hnew h
    intro c op c' hc hop
    obtain ⟨outcome, houtcome, rfl⟩ := Chronicle.next?_eq_some_iff.1 hop
    exact status_of_perform? hc houtcome
  · obtain ⟨k, hk, -, houtcome, hevents⟩ := exists_events_run h
    exact ⟨k, hk, houtcome, hevents⟩
  · rw [step_of_hlt hhlt] at hstep
    cases hstep
    exact ⟨rfl, rfl⟩

/-- Two halts in a row, of which the first is run to, and a start that a write beyond the end of
memory does not undo. -/
def restarted : List Operation :=
  [.load ⟨[0x01, 0x01]⟩, .run, .start, .poke 256 0]

theorem running_iff_underway_restarted :
    ∃ c m', (initial {} false).chronicle? restarted = some c ∧ Underway c.events ∧
      c.machine.run? = some ⟨m', none⟩ ∧ m'.status = .stopped ∧ m'.pc = 2 ∧
      m'.step.fault = some (.unknownOpcode 0 2) ∧ m'.step.state.status = .stopped := by
  obtain ⟨c, hc⟩ : ∃ c, (initial {} false).chronicle? restarted = some c :=
    Option.isSome_iff_exists.1 (by decide +kernel)
  have hshown : ((initial {} false).chronicle? restarted).map (fun c =>
      (c.machine.status, c.machine.pc, c.machine.start.fetch,
        c.machine.start.step.state.step.fault)) =
      some (.running, 1, .ok .hlt, some (.unknownOpcode 0 2)) := by
    decide +kernel
  rw [hc, Option.map_some] at hshown
  obtain ⟨hrunning, hp, hfetch, hfault⟩ : _ ∧ _ ∧ _ ∧ _ := by
    simpa only [Option.some.injEq, Prod.mk.injEq] using hshown
  obtain ⟨hstatus, -, -, hstopped, hreturns, hhalts, hbehind, -⟩ := running_iff_underway
  have hstep : c.machine.start.step = ⟨c.machine.start.step.state, none⟩ :=
    step_eq_of_fault_eq_none (by rw [step_of_hlt hfetch])
  have hrun : c.machine.run? = some ⟨c.machine.start.step.state, none⟩ :=
    (hhalts _ _).2 ⟨0, proceeds_zero, hfetch, hstep⟩
  obtain ⟨hend, -⟩ := hreturns _ _ hrun
  obtain ⟨hpc, -⟩ := hbehind _ _ hfetch hstep
  refine ⟨c, _, hc, (hstatus _ _ _ _ hc).1 hrunning, hrun, hend, ?_, hfault, ?_⟩
  · rw [hpc]
    exact congrArg (· + 1) hp
  · rw [hstopped _ hend]
    rfl

end LS8.Machine
