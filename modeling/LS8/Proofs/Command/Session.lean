import LS8.Proofs.Command.Notes
import LS8.Proofs.Machine.Capture
import LS8.Proofs.Machine.Horizon
import LS8.Proofs.Machine.TraceLine

/-!
# Sessions and runs

A session steps through the same states as a run; what it adds is the trace and the
limit.

- `Session.continueFor_add`: while the machine proceeds within the limit, the session
  only takes notes;
- `Session.supervise?_of_haltsAt`, `Session.supervise?_of_faultsAt`,
  `Session.supervise?_of_proceeds` and `Session.supervise?_of_neverStops`: the four ways in
  which a supervised session is over;
- `Session.run?_of_haltsAt` and so on: the same of a session that may leave the machine to
  itself. It makes no difference (`Session.seen_run?`);
- `session_refines_run`: the same for a machine with an image, beside what
  `Machine.run?` makes of it.
-/

namespace LS8

/-! ## What a run logs -/

namespace Machine

variable {m : Machine} {n : Nat} {told : List LogEvent} {outcome : Outcome Machine}

theorem level_of_mem_decoded? : ∀ event ∈ m.decoded?.toList, event.level ≠ .warn := by
  unfold decoded?
  cases Instruction.decode m.memory m.pc with
  | error f => exact nofun
  | ok i =>
    intro event hmem
    rw [List.mem_singleton.1 hmem]
    exact nofun

/-- What a run logs is no warning, by induction on the number of steps. -/
theorem level_of_mem_tellFor (h : ∀ event ∈ told, event.level ≠ .warn) :
    ∀ event ∈ tellFor n told m, event.level ≠ .warn := by
  induction n generalizing m told with
  | zero => exact h
  | succ n ih =>
    have htold : ∀ event ∈ m.decoded?.toList ++ told, event.level ≠ .warn := fun event hmem =>
      (List.mem_append.1 hmem).elim (level_of_mem_decoded? event) (h event)
    cases hm : m.status with
    | stopped =>
      simp only [tellFor, hm]
      exact h
    | running =>
      rcases hs : m.step with ⟨m', _ | f⟩
      · simp only [tellFor, hm, hs]
        exact ih htold
      · simp only [tellFor, hm, hs]
        exact List.forall_mem_cons.2 ⟨nofun, htold⟩

theorem level_of_mem_runEvents : ∀ event ∈ m.runEvents outcome, event.level ≠ .warn := by
  have htold : ∀ event ∈ (tellFor m.horizon [] m.start).reverse, event.level ≠ .warn :=
    fun event h => level_of_mem_tellFor (List.forall_mem_nil _) event (List.mem_reverse.1 h)
  refine List.forall_mem_append.2 ⟨List.forall_mem_cons.2 ⟨nofun, htold⟩, ?_⟩
  cases outcome.fault with
  | some f => exact nofun
  | none => exact List.forall_mem_singleton.2 nofun

end Machine

namespace Command

open Machine (loaded)

/-- The trace of the first `n` steps: a line for each of them that shows the machine before it,
if there is to be a trace. -/
def Traces (tracing : Bool) (m : Machine) (n : Nat) (lines : List String) : Prop :=
  List.Forall₂ (fun j line => (m.after j).TracedAs line) (if tracing then List.range n else [])
    lines

namespace Session

variable {m m' : Machine} {f : Fault} {limit : Option Nat} {tracing : Bool}
  {noted : List Note} {s : Session} {lines' : List String} {ending : Ending} {n j k : Nat}

/-- The lines that a session traces in the first `n` steps. -/
def lines (tracing : Bool) (m : Machine) (n : Nat) : List String :=
  if tracing then (List.range n).map fun j => (m.after j).traceLine else []

theorem traces_lines (tracing : Bool) (m : Machine) (n : Nat) :
    Traces tracing m n (lines tracing m n) := by
  unfold Traces lines
  cases tracing with
  | false => exact .nil
  | true =>
    rw [if_pos rfl, if_pos rfl, List.forall₂_map_right_iff, List.forall₂_same]
    exact fun j _ => (m.after j).tracedAs_traceLine

/-- What a session notes in the first `n` steps. -/
def notesOf (tracing : Bool) (m : Machine) (n : Nat) : List Note :=
  (List.range n).flatMap fun j => stepNotes tracing (m.after j)

/-- The notes on a step come first in what is noted, which is in reverse. -/
theorem reverse_notesOf_succ : (notesOf tracing m (n + 1)).reverse =
    (stepNotes tracing (m.after n)).reverse ++ (notesOf tracing m n).reverse := by
  simp [notesOf, List.range_succ]

theorem own_stepNotes (tracing : Bool) (m : Machine) :
    own (stepNotes tracing m) = (if tracing then [m.traceLine] else []).map .traced := by
  rw [stepNotes, own_append, own_logged, List.append_nil]
  cases tracing <;> rfl

/-- The notes of a session that are its own are the trace lines. -/
theorem own_notesOf (tracing : Bool) (m : Machine) (n : Nat) :
    own (notesOf tracing m n) = (lines tracing m n).map .traced := by
  induction n with
  | zero => cases tracing <;> rfl
  | succ n ih =>
    have hnotes : notesOf tracing m (n + 1) =
        notesOf tracing m n ++ stepNotes tracing (m.after n) := by
      simp [notesOf, List.range_succ]
    rw [hnotes, own_append, ih, own_stepNotes, ← List.map_append]
    cases tracing with
    | false => rfl
    | true => simp [lines, List.range_succ]

theorem calm_notesOf (tracing : Bool) (m : Machine) (n : Nat) : Calm (notesOf tracing m n) := by
  intro event hmem
  obtain ⟨j, -, hmem⟩ := List.mem_flatMap.1 hmem
  rcases List.mem_append.1 hmem with htraced | hlogged
  · cases tracing <;> simp at htraced
  · exact calm_logged Machine.level_of_mem_decoded? event hlogged

/-- The session left this machine, traced these lines and ended so. Beside that it logged no
warning. -/
structure Left (s : Session) (m : Machine) (lines : List String) (ending : Ending) : Prop where
  machine : s.machine = m
  own : own s.notes = lines.map .traced
  ending : s.ending = ending
  calm : Calm s.notes

/-- What is seen of a session apart from its log. -/
def seen (s : Session) : Machine × List Note × Ending :=
  (s.machine, Command.own s.notes, s.ending)

theorem Left.seen_eq (h : s.Left m lines' ending) : s.seen = (m, lines'.map .traced, ending) := by
  rw [seen, h.machine, h.own, h.ending]

/-! ## One round -/

theorem continueFor_of_stopped (hm : m.status = .stopped) :
    continueFor limit tracing n noted m = some ⟨m, noted.reverse, .halted⟩ := by
  rw [continueFor.eq_def]
  simp only [hm]

theorem continueFor_of_exhausted (hm : m.status = .running) (hlimit : exhausted limit m = true) :
    continueFor limit tracing n noted m =
      some ⟨m, noted.reverse, .limitReached (limit.getD 0) m.pc⟩ := by
  rw [continueFor.eq_def]
  simp only [hm, hlimit, if_true]

theorem continueFor_of_step (hm : m.status = .running) (hlimit : exhausted limit m = false)
    (hs : m.step = ⟨m', none⟩) :
    continueFor limit tracing (n + 1) noted m =
      continueFor limit tracing n ((stepNotes tracing m).reverse ++ noted) m' := by
  rw [continueFor, hm]
  simp only [hlimit, hs, Bool.false_eq_true, if_false]

theorem continueFor_of_step_fault (hm : m.status = .running) (hlimit : exhausted limit m = false)
    (hs : m.step = ⟨m', some f⟩) :
    continueFor limit tracing (n + 1) noted m =
      some ⟨m', (.logged (.stoppedByFault m'.pc f) ::
        ((stepNotes tracing m).reverse ++ noted)).reverse, .faulted f⟩ := by
  rw [continueFor, hm]
  simp only [hlimit, hs, Bool.false_eq_true, if_false]

/-- Without a limit and without fuel nothing results from a machine that is running. -/
theorem continueFor_none (hm : m.status = .running) :
    continueFor none tracing 0 noted m = none := by
  rw [continueFor, hm]
  rfl

/-! ## Many rounds -/

/-- A machine that proceeds has used up its limit once it has made that many steps. -/
theorem exhausted_after (h : m.Proceeds n) :
    exhausted limit (m.after n) = true ↔ ∃ N ∈ limit, N ≤ m.steps + n := by
  cases limit with
  | none => simp [exhausted]
  | some N => simp [exhausted, h.steps]

theorem not_exhausted_after (h : m.Proceeds n) (hlimit : ∀ N ∈ limit, m.steps + n < N) :
    exhausted limit (m.after n) = false := by
  refine Bool.eq_false_iff.2 fun hex => ?_
  obtain ⟨N, hN, hle⟩ := (exhausted_after h).1 hex
  exact absurd (hlimit N hN) (Nat.not_lt.2 hle)

/-- **A session follows the trajectory** of a machine that proceeds, as long as the
limit allows. -/
theorem continueFor_add (hm : m.status = .running) (h : m.Proceeds j)
    (hlimit : ∀ N ∈ limit, m.steps + j ≤ N) (n : Nat) :
    continueFor limit tracing (j + n) [] m =
      continueFor limit tracing n (notesOf tracing m j).reverse (m.after j) := by
  induction j generalizing n with
  | zero =>
    rw [Nat.zero_add]
    rfl
  | succ j ih =>
    obtain ⟨hbefore, hlast⟩ := Machine.proceeds_succ.1 h
    have hj : exhausted limit (m.after j) = false :=
      not_exhausted_after hbefore fun N hN => Nat.lt_of_succ_le (hlimit N hN)
    rw [show j + 1 + n = j + (n + 1) by omega,
      ih hbefore fun N hN => Nat.le_of_succ_le (hlimit N hN),
      continueFor_of_step (hbefore.status hm) hj (Machine.step_eq_of_fault_eq_none hlast.1),
      reverse_notesOf_succ, Machine.after_succ]

/-! ## The ways in which a supervised session is over -/

theorem span_none (m : Machine) : span none m = m.horizon := by
  rw [span]

theorem span_some (N : Nat) (m : Machine) : span (some N) m = N - m.steps := by
  rw [span]

/-- A session is given more instructions than it needs. -/
theorem exists_span_eq (hlimit : ∀ N ∈ limit, m.steps + k < N) (hk : k < m.horizon) :
    ∃ n, span limit m = k + (n + 1) := by
  have hspan : k < span limit m := by
    cases limit with
    | none =>
      rw [span_none]
      exact hk
    | some N =>
      have := hlimit N rfl
      rw [span_some]
      omega
  exact ⟨span limit m - k - 1, by omega⟩

theorem supervise?_of_haltsAt (h : m.start.HaltsAt k) (hlimit : ∀ N ∈ limit, m.steps + k ≤ N) :
    ∃ s, supervise? limit tracing m = some s ∧
      s.Left (m.start.after k) (lines tracing m.start k) .halted := by
  -- the limit is checked before the `HLT`, which is the instruction after `j` others
  obtain ⟨j, rfl, hbefore, hx, hs⟩ := h.executes
  have hj : j < m.horizon := Machine.lt_horizon_of_start hbefore h.not_proceeds
  have hlimit' : ∀ N ∈ limit, m.start.steps + j < N := hlimit
  obtain ⟨n, hspan⟩ : ∃ n, span limit m = j + (n + 1) := exists_span_eq hlimit' hj
  refine ⟨⟨m.start.after (j + 1), notesOf tracing m.start (j + 1), .halted⟩, ?_, rfl,
    own_notesOf _ _ _, rfl, calm_notesOf _ _ _⟩
  rw [supervise?, hspan, continueFor_add rfl hbefore fun N hN => Nat.le_of_lt (hlimit' N hN),
    continueFor_of_step (hbefore.status rfl) (not_exhausted_after hbefore hlimit') hs,
    continueFor_of_stopped (Machine.status_of_executes_hlt hx), ← reverse_notesOf_succ,
    List.reverse_reverse]

theorem supervise?_of_faultsAt (h : m.start.FaultsAt k f) (hlimit : ∀ N ∈ limit, m.steps + k < N) :
    ∃ s, supervise? limit tracing m = some s ∧
      s.Left (m.start.after (k + 1)) (lines tracing m.start (k + 1)) (.faulted f) := by
  have hk : k < m.horizon := Machine.lt_horizon_of_start h.1 h.not_proceeds
  obtain ⟨n, hspan⟩ := exists_span_eq hlimit hk
  have hlimit' : ∀ N ∈ limit, m.start.steps + k < N := hlimit
  let last : List LogEvent := [.stoppedByFault (m.start.after (k + 1)).pc f]
  have hown : own (notesOf tracing m.start (k + 1) ++ last.map .logged) =
      (lines tracing m.start (k + 1)).map .traced := by
    rw [own_append, own_logged, List.append_nil, own_notesOf]
  have hcalm : Calm (notesOf tracing m.start (k + 1) ++ last.map .logged) :=
    (calm_notesOf _ _ _).append (calm_logged (List.forall_mem_singleton.2 nofun))
  refine ⟨⟨_, _, .faulted f⟩, ?_, rfl, hown, rfl, hcalm⟩
  rw [supervise?, hspan, continueFor_add rfl h.1 fun N hN => Nat.le_of_lt (hlimit' N hN),
    continueFor_of_step_fault (h.1.status rfl) (not_exhausted_after h.1 hlimit') h.step_eq,
    ← reverse_notesOf_succ, List.reverse_cons, List.reverse_reverse]
  rfl

/-- The limit is reached if the machine proceeds that far. -/
theorem supervise?_of_proceeds (h : m.start.Proceeds n) :
    ∃ s, supervise? (some (m.steps + n)) tracing m = some s ∧
      s.Left (m.start.after n) (lines tracing m.start n)
        (.limitReached (m.steps + n) (m.start.after n).pc) := by
  -- the fuel is used up just when the limit is, and the limit is looked at first
  have hspan : span (some (m.steps + n)) m = n + 0 := by
    rw [span_some, Nat.add_sub_cancel_left, Nat.add_zero]
  have hlimit : ∀ N ∈ some (m.steps + n), m.start.steps + n ≤ N := by
    rintro N ⟨⟩
    exact Nat.le_refl _
  have hex : exhausted (some (m.steps + n)) (m.start.after n) = true :=
    (exhausted_after h).2 ⟨_, rfl, Nat.le_refl _⟩
  refine ⟨⟨_, notesOf tracing m.start n, _⟩, ?_, rfl, own_notesOf _ _ _, rfl, calm_notesOf _ _ _⟩
  rw [supervise?, hspan, continueFor_add rfl h hlimit, continueFor_of_exhausted (h.status rfl) hex,
    List.reverse_reverse, Option.getD_some]

theorem supervise?_of_neverStops (h : m.start.NeverStops) : supervise? none tracing m = none := by
  have hrunning : (m.start.after m.horizon).status = .running := (h m.horizon).status rfl
  have hlimit : ∀ N ∈ (none : Option Nat), m.start.steps + m.horizon ≤ N := by
    rintro N ⟨⟩
  rw [supervise?, span_none, ← Nat.add_zero m.horizon, continueFor_add rfl (h _) hlimit,
    continueFor_none hrunning]

/-! ## The ways in which a session is over -/

theorem run?_none_false (m : Machine) : run? none false m = m.run?.map (ofRun m) :=
  rfl

/-- A session that traces, or has a limit, is supervised. -/
theorem run?_eq_supervise? (h : ¬ (tracing = false ∧ limit = none)) :
    run? limit tracing m = supervise? limit tracing m := by
  unfold run?
  cases tracing with
  | true => rfl
  | false =>
    cases limit with
    | none => exact absurd ⟨rfl, rfl⟩ h
    | some N => rfl

/-- A run that is left to itself traces nothing. -/
theorem left_ofRun {outcome : Outcome Machine} (hm : outcome.state = m')
    (hending : (ofRun m outcome).ending = ending) :
    (ofRun m outcome).Left m' [] ending :=
  ⟨hm, own_logged _, hending, calm_logged Machine.level_of_mem_runEvents⟩

theorem run?_of_haltsAt (h : m.start.HaltsAt k) (hlimit : ∀ N ∈ limit, m.steps + k ≤ N) :
    ∃ s, run? limit tracing m = some s ∧
      s.Left (m.start.after k) (lines tracing m.start k) .halted := by
  by_cases hfree : tracing = false ∧ limit = none
  · obtain ⟨rfl, rfl⟩ := hfree
    rw [run?_none_false, Machine.run?_of_haltsAt h]
    exact ⟨_, rfl, left_ofRun rfl rfl⟩
  · rw [run?_eq_supervise? hfree]
    exact supervise?_of_haltsAt h hlimit

theorem run?_of_faultsAt (h : m.start.FaultsAt k f) (hlimit : ∀ N ∈ limit, m.steps + k < N) :
    ∃ s, run? limit tracing m = some s ∧
      s.Left (m.start.after (k + 1)) (lines tracing m.start (k + 1)) (.faulted f) := by
  by_cases hfree : tracing = false ∧ limit = none
  · obtain ⟨rfl, rfl⟩ := hfree
    rw [run?_none_false, Machine.run?_of_faultsAt h]
    exact ⟨_, rfl, left_ofRun rfl rfl⟩
  · rw [run?_eq_supervise? hfree]
    exact supervise?_of_faultsAt h hlimit

theorem run?_of_proceeds (h : m.start.Proceeds n) :
    ∃ s, run? (some (m.steps + n)) tracing m = some s ∧
      s.Left (m.start.after n) (lines tracing m.start n)
        (.limitReached (m.steps + n) (m.start.after n).pc) := by
  rw [run?_eq_supervise? fun hfree => by cases hfree.2]
  exact supervise?_of_proceeds h

theorem run?_of_neverStops (h : m.start.NeverStops) : run? none tracing m = none := by
  cases tracing with
  | false => rw [run?_none_false, Machine.run?_of_neverStops h, Option.map_none]
  | true =>
    rw [run?_eq_supervise? fun hfree => by cases hfree.1]
    exact supervise?_of_neverStops h

/-- **Leaving a machine to itself makes no difference** to what is seen: a session without a
trace and without a limit is as if it were supervised. -/
theorem seen_run? (limit : Option Nat) (tracing : Bool) (m : Machine) :
    (run? limit tracing m).map seen = (supervise? limit tracing m).map seen := by
  by_cases hfree : tracing = false ∧ limit = none
  · obtain ⟨rfl, rfl⟩ := hfree
    have hnone : ∀ {P : Nat → Prop}, ∀ N ∈ (none : Option Nat), P N := by
      rintro P N ⟨⟩
    rcases m.start.ends_or_neverStops with ⟨k, h⟩ | ⟨k, f, h⟩ | h
    · obtain ⟨s, hs, hleft⟩ := supervise?_of_haltsAt h hnone
      obtain ⟨s', hs', hleft'⟩ := run?_of_haltsAt h hnone
      rw [hs, hs', Option.map_some, Option.map_some, hleft.seen_eq, hleft'.seen_eq]
    · obtain ⟨s, hs, hleft⟩ := supervise?_of_faultsAt h hnone
      obtain ⟨s', hs', hleft'⟩ := run?_of_faultsAt h hnone
      rw [hs, hs', Option.map_some, Option.map_some, hleft.seen_eq, hleft'.seen_eq]
    · rw [run?_of_neverStops h, supervise?_of_neverStops h]
  · rw [run?_eq_supervise? hfree]

/-! ## Machines with an image -/

/-- A limit that the run does not keep within is one up to which the machine proceeds. -/
theorem proceeds_of_limit_lt {N : Nat}
    (h : (∃ k, m.HaltsAt k ∧ N < k) ∨ (∃ k f, m.FaultsAt k f ∧ N < k + 1) ∨ m.NeverStops) :
    m.Proceeds N := by
  rcases h with ⟨k, ⟨j, rfl, hbefore, -⟩, hlt⟩ | ⟨k, f, hfaults, hlt⟩ | hnever
  · exact hbefore.mono (Nat.le_of_lt_succ hlt)
  · exact hfaults.1.mono (Nat.le_of_lt_succ hlt)
  · exact hnever N

end Session

/-- The failure that an ending is reported as. -/
def Ending.failure? : Ending → Option Failure
  | halted => none
  | faulted fault => some (.fault fault)
  | limitReached limit address => some (.stepLimit limit address)

/-- What the command makes of a session. -/
def Session.completion (session : Session) : Completion where
  output := session.machine.device.contents
  entries := session.notes
    ++ (session.machine.profile.map fun profile => .profiled profile.report).toList
  failure := session.ending.failure?

/-- What is completed at the limit: what was printed up to there, and the failure. -/
theorem Session.Left.completion_of_limitReached {s : Session} {m : Machine} {lines : List String}
    {N address : Nat} (h : s.Left m lines (.limitReached N address))
    (describe : Malformation → String) :
    s.completion.output = m.device.contents ∧
      s.completion.failure.map (Failure.text describe) =
        some ("step limit of " ++ Numeral.decimal N ++ " instructions reached at address "
          ++ Numeral.decimal address) := by
  refine ⟨congrArg (·.device.contents) h.machine, ?_⟩
  show (s.ending.failure?).map (Failure.text describe) = _
  rw [h.ending]
  simp [Ending.failure?, Failure.text, Failure.chain]

variable {image : Image}

/-- An image that fits is run in a session. -/
theorem runImage?_of_fits (out : StandardOutput) (program : Path) (mode : Mode)
    (hfit : image.bytes.length ≤ Memory.size) :
    runImage? out program image mode =
      (Session.run? mode.limit mode.trace (loaded out.device mode.stats image)).map
        Session.completion := by
  have hload : ((Machine.initial out.device mode.stats).load image).fault = none :=
    Memory.fault_load_eq_none_iff.2 hfit
  unfold runImage?
  simp only [hload]
  refine congrArg (Option.map · _) (funext fun session => ?_)
  unfold Session.completion
  cases session.ending <;> rfl

/-- Standard output that takes everything holds the numbers that were printed. -/
theorem contents_after {out : StandardOutput} (hout : out.device.Unlimited) {m : Machine}
    (hm : m.device = out.device) (n : Nat) : (m.after n).device.contents =
      String.join ((m.printed n).map fun v => Numeral.decimal v.toNat ++ "\n") := by
  have hnew : m.device.contents = "" := by
    rw [hm, Device.contents, out.device_new]
    rfl
  rw [← hm] at hout
  rw [Machine.contents_after hout, hnew, String.empty_append, Machine.transcript]

/-- **The session of a machine with an image refines its run.** The run halts, faults
or never stops. A session without a limit, or with one that the run keeps within, has
the same machine and the same end; a fault has to be within the limit as well. Any
other session executes as many instructions as the limit says and fails there, with
what they printed as its output. What is traced is a line for each instruction begun,
which shows the machine before it. That a session without a trace and a limit leaves
the machine to itself makes no difference. -/
theorem session_refines_run (hfit : image.bytes.length ≤ 256) (out : StandardOutput)
    (profiling tracing : Bool) (limit : Option Nat) :
    let m := loaded out.device profiling image
    ((∃ k, m.start.HaltsAt k) ∨ (∃ k f, m.start.FaultsAt k f) ∨ m.start.NeverStops) ∧
    (Session.run? limit tracing m).map Session.seen =
      (Session.supervise? limit tracing m).map Session.seen ∧
    (∀ k, m.start.HaltsAt k → (∀ N ∈ limit, k ≤ N) →
      m.run? = some ⟨m.start.after k, none⟩ ∧
      ∃ s lines, Session.run? limit tracing m = some s ∧
        s.Left (m.start.after k) lines .halted ∧ Traces tracing m.start k lines) ∧
    (∀ k f, m.start.FaultsAt k f → (∀ N ∈ limit, k + 1 ≤ N) →
      m.run? = some ⟨m.start.after (k + 1), some f⟩ ∧
      ∃ s lines, Session.run? limit tracing m = some s ∧
        s.Left (m.start.after (k + 1)) lines (.faulted f) ∧
        Traces tracing m.start (k + 1) lines) ∧
    (m.start.NeverStops → limit = none →
      m.run? = none ∧ Session.run? limit tracing m = none) ∧
    ∀ N, limit = some N →
      (∃ k, m.start.HaltsAt k ∧ N < k) ∨ (∃ k f, m.start.FaultsAt k f ∧ N < k + 1) ∨
        m.start.NeverStops →
      m.start.Proceeds N ∧ (m.start.after N).steps = N ∧
      (∃ s lines, Session.run? limit tracing m = some s ∧
        s.Left (m.start.after N) lines (.limitReached N (m.start.after N).pc) ∧
        Traces tracing m.start N lines) ∧
      ∀ program describe, ∃ completion,
        runImage? out program image ⟨tracing, profiling, limit⟩ = some completion ∧
        completion.output = (m.start.after N).device.contents ∧
        (out.device.Unlimited → completion.output =
          String.join ((m.start.printed N).map fun v => Numeral.decimal v.toNat ++ "\n")) ∧
        completion.failure.map (Failure.text describe) =
          some ("step limit of " ++ Numeral.decimal N ++ " instructions reached at address "
            ++ Numeral.decimal (m.start.after N).pc) := by
  intro m
  have hsteps : ∀ n, m.steps + n = n := Nat.zero_add
  refine ⟨Machine.ends_or_neverStops _, Session.seen_run? limit tracing m, fun k h hlimit => ?_,
    fun k f h hlimit => ?_, fun h hlimit => ?_, fun N hlimit h => ?_⟩
  · rw [← hsteps k] at hlimit
    obtain ⟨s, hs, hleft⟩ := Session.run?_of_haltsAt h hlimit
    exact ⟨Machine.run?_of_haltsAt h, s, _, hs, hleft, Session.traces_lines _ _ _⟩
  · rw [← hsteps k] at hlimit
    obtain ⟨s, hs, hleft⟩ := Session.run?_of_faultsAt h hlimit
    exact ⟨Machine.run?_of_faultsAt h, s, _, hs, hleft, Session.traces_lines _ _ _⟩
  · subst hlimit
    exact ⟨Machine.run?_of_neverStops h, Session.run?_of_neverStops h⟩
  · subst hlimit
    have hproceeds := Session.proceeds_of_limit_lt h
    have hreached : ∃ s, Session.run? (some (m.steps + N)) tracing m = some s ∧ _ :=
      Session.run?_of_proceeds hproceeds
    rw [hsteps] at hreached
    obtain ⟨s, hs, hleft⟩ := hreached
    refine ⟨hproceeds, hproceeds.steps.trans (hsteps N),
      ⟨s, _, hs, hleft, Session.traces_lines _ _ _⟩, fun program describe => ?_⟩
    obtain ⟨houtput, hfailure⟩ := hleft.completion_of_limitReached describe
    refine ⟨s.completion, ?_, houtput, fun hout => houtput.trans (contents_after hout rfl N),
      hfailure⟩
    rw [runImage?_of_fits out program _ hfit, hs, Option.map_some]

/-- `LDI R0,5`, `PRN R0`, `HLT`. -/
def printsFive : Image := ⟨[0x82, 0x00, 0x05, 0x47, 0x00, 0x01]⟩

/-- `PRN R9`: a register that does not exist. -/
def printsNothing : Image := ⟨[0x47, 0x09]⟩

/-- `PUSH R0`, `RET`: returns to its beginning for ever. -/
def spins : Image := ⟨[0x45, 0x00, 0x11]⟩

theorem neverStops_spins : (loaded {} false spins).start.NeverStops := by
  have hcells : ((loaded {} false spins).start.after 2).memory.cells.toList =
      ((loaded {} false spins).start.after 0).memory.cells.toList := by decide +kernel
  have hround : Machine.Alike ((loaded {} false spins).start.after 0)
      ((loaded {} false spins).start.after 2) :=
    ⟨by decide +kernel, congrArg Memory.mk (Vector.toList_inj.1 hcells), by decide +kernel,
      by decide +kernel, by decide +kernel⟩
  exact Machine.neverStops_of_alike (by decide +kernel) (by decide) hround

/-- What a session without a trace left and how it ended. -/
theorem session_refines_run_each :
    (Session.run? none false (loaded {} false printsFive)).map Session.seen =
      some ((loaded {} false printsFive).start.after 3, [], .halted) ∧
    (Session.run? (some 2) true (loaded {} false printsFive)).map Session.ending =
      some (.limitReached 2 5) ∧
    (∃ line, (Session.run? (some 1) true (loaded {} false printsNothing)).map
        (own ∘ Session.notes) = some [.traced line] ∧
      line = "TRACE: 00 | 47 09 00 | 00 00 00 00 00 00 00 F4" ∧
      (loaded {} false printsNothing).start.TracedAs line) ∧
    (loaded {} false spins).run? = none ∧
    (Session.run? (some 3) false (loaded {} false spins)).map Session.ending =
      some (.limitReached 3 2) := by
  have hhalts : (loaded {} false printsFive).start.HaltsAt 3 :=
    ⟨2, rfl, by decide +kernel, by decide +kernel⟩
  have hfaults : (loaded {} false printsNothing).start.FaultsAt 0 (.invalidRegister 9) :=
    ⟨by decide +kernel, by decide +kernel⟩
  have hfive : printsFive.bytes.length ≤ 256 := by decide
  have hnothing : printsNothing.bytes.length ≤ 256 := by decide
  have hspins : spins.bytes.length ≤ 256 := by decide
  refine ⟨?_, ?_, ?_, ?_, ?_⟩
  · obtain ⟨-, -, hhalting, -⟩ := session_refines_run hfive {} false false none
    obtain ⟨-, s, lines, hs, hleft, htraces⟩ := hhalting 3 hhalts nofun
    cases htraces
    rw [hs, Option.map_some, hleft.seen_eq]
    rfl
  · obtain ⟨-, -, -, -, -, hlimited⟩ := session_refines_run hfive {} false true (some 2)
    obtain ⟨-, -, ⟨s, lines, hs, hleft, -⟩, -⟩ := hlimited 2 rfl (.inl ⟨3, hhalts, by decide⟩)
    have hpc : ((loaded {} false printsFive).start.after 2).pc = 5 := by decide +kernel
    rw [hs, Option.map_some, hleft.ending, ← hpc]
  · obtain ⟨-, -, -, hfaulting, -⟩ := session_refines_run hnothing {} false true (some 1)
    have hlimit : ∀ N ∈ some 1, 0 + 1 ≤ N := by
      rintro N ⟨⟩
      exact Nat.le_refl 1
    obtain ⟨-, s, lines, hs, hleft, htraces⟩ := hfaulting 0 _ hfaults hlimit
    have hown : (Session.run? (some 1) true (loaded {} false printsNothing)).map
        (own ∘ Session.notes) =
          some [.traced "TRACE: 00 | 47 09 00 | 00 00 00 00 00 00 00 F4"] := by
      decide +kernel
    refine ⟨_, hown, rfl, ?_⟩
    rw [hs, Option.map_some, Function.comp_apply, hleft.own] at hown
    cases htraces with
    | cons hline hrest =>
      cases hrest
      cases hown
      exact hline
  · obtain ⟨-, -, -, -, hendless, -⟩ := session_refines_run hspins {} false false none
    exact (hendless neverStops_spins rfl).1
  · obtain ⟨-, -, -, -, -, hlimited⟩ := session_refines_run hspins {} false false (some 3)
    obtain ⟨-, -, ⟨s, lines, hs, hleft, -⟩, -⟩ := hlimited 3 rfl (.inr (.inr neverStops_spins))
    have hpc : ((loaded {} false spins).start.after 3).pc = 2 := by decide +kernel
    rw [hs, Option.map_some, hleft.ending, ← hpc]

end Command

end LS8
