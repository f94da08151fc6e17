import Mathlib.Data.List.Induction
import LS8.Settings.File

/-!
# Settings laid over one another

`Settings.merge` lays settings over others. It may be done in any grouping and as often as one
likes, and settings that are all open change nothing; this is true of the settings as a whole,
of sections that are present without any setting too. (Laid over settings that are all open, an
empty section on reporting is lost, so these are neutral on one side only.)

The two sections are laid over one another apart, `overRun` and `overOutput`. A single setting is a
`Settings.Field`: something that is read off settings, and of which the upper settings decide if
they say anything. Of several layers, the last that says anything decides (`Field.read_foldl`).
-/

namespace LS8.Settings

variable {α : Type} {s base : Settings} {layers : List Settings}

/-! ## Sections -/

theorem mergeRun_assoc (a b c : RunSettings) :
    mergeRun (mergeRun a b) c = mergeRun a (mergeRun b c) := by
  simp only [mergeRun, Option.or_assoc]

theorem mergeRun_self (a : RunSettings) : mergeRun a a = a := by
  simp only [mergeRun, Option.or_self]

theorem empty_mergeRun (a : RunSettings) : mergeRun {} a = a := by
  simp only [mergeRun, Option.or_none]

/-- One section on running over another. -/
def overRun (lower : Option RunSettings) : Option RunSettings → Option RunSettings
  | none => lower
  | some run => some (mergeRun (lower.getD {}) run)

/-- One section on reporting over another. -/
def overOutput (lower : Option OutputSettings) : Option OutputSettings → Option OutputSettings
  | some ⟨some json⟩ => some ⟨some json⟩
  | some ⟨none⟩ | none => lower

/-- Each section is laid over its like. -/
theorem merge_eq (lower upper : Settings) :
    lower.merge upper = ⟨overRun lower.run upper.run, overOutput lower.output upper.output⟩ := by
  obtain ⟨_, _ | ⟨_ | _⟩⟩ := upper <;> rfl

theorem overRun_assoc (x y z : Option RunSettings) :
    overRun (overRun x y) z = overRun x (overRun y z) := by
  cases z with
  | none => rfl
  | some c =>
    cases y with
    | none => simp only [overRun, Option.getD_none, empty_mergeRun]
    | some b => simp only [overRun, Option.getD_some, mergeRun_assoc]

theorem overRun_self (x : Option RunSettings) : overRun x x = x := by
  cases x with
  | none => rfl
  | some a => simp only [overRun, Option.getD_some, mergeRun_self]

theorem overOutput_assoc (x y z : Option OutputSettings) :
    overOutput (overOutput x y) z = overOutput x (overOutput y z) := by
  rcases z with _ | ⟨_ | json⟩
  · rfl
  · rfl
  · rfl

theorem overOutput_self (x : Option OutputSettings) : overOutput x x = x := by
  rcases x with _ | ⟨_ | json⟩
  · rfl
  · rfl
  · rfl

/-! ## Settings -/

theorem merge_assoc (a b c : Settings) : (a.merge b).merge c = a.merge (b.merge c) := by
  simp only [merge_eq, overRun_assoc, overOutput_assoc]

theorem merge_self (a : Settings) : a.merge a = a := by
  rw [merge_eq, overRun_self, overOutput_self]

theorem merge_empty (a : Settings) : a.merge {} = a := rfl

theorem merge_twice (a b : Settings) : (a.merge b).merge b = a.merge b := by
  rw [merge_assoc, merge_self]

/-! ## Single settings -/

/-- A single setting. What settings say of it, if anything, goes over what those below say. -/
structure Field (α : Type) where
  read : Settings → Option α
  read_merge : ∀ lower upper, read (lower.merge upper) = (read upper).or (read lower)

/-- A setting of the section on running. -/
def Field.ofRun (read : RunSettings → Option α) (hempty : read {} = none)
    (hread : ∀ lower upper, read (mergeRun lower upper) = (read upper).or (read lower)) :
    Field α where
  read s := s.run.bind read
  read_merge lower upper := by
    rw [merge_eq]
    cases upper.run with
    | none => rfl
    | some b =>
      cases lower.run with
      | none =>
        simp only [overRun, Option.getD_none, Option.bind_some, Option.bind_none, hread, hempty]
      | some a => simp only [overRun, Option.getD_some, Option.bind_some, hread]

/-- The limit on instructions. -/
def Field.maxSteps : Field Nat := .ofRun (·.maxSteps) rfl fun _ _ => rfl

/-- Whether to trace. -/
def Field.trace : Field Bool := .ofRun (·.trace) rfl fun _ _ => rfl

/-- Whether to print counts. -/
def Field.stats : Field Bool := .ofRun (·.stats) rfl fun _ _ => rfl

/-- Whether to report errors as JSON. -/
def Field.json : Field Bool where
  read s := s.output.bind (·.json)
  read_merge lower upper := by
    rw [merge_eq]
    rcases upper.output with _ | ⟨_ | json⟩
    · rfl
    · rfl
    · rfl

/-- The value that the last of several layers sets, of those that set any. -/
def lastSet (read : Settings → Option α) (layers : List Settings) : Option α :=
  (layers.filterMap read).getLast?

/-- **The last layer that sets a value decides.** -/
theorem Field.read_foldl (field : Field α) (base : Settings) (layers : List Settings) :
    field.read (layers.foldl merge base) = lastSet field.read (base :: layers) := by
  induction layers using List.reverseRecOn with
  | nil => cases h : field.read base <;> simp [lastSet, h]
  | append_singleton layers top ih =>
    rw [List.foldl_append, List.foldl_cons, List.foldl_nil, field.read_merge, ih, lastSet, lastSet,
      ← List.cons_append, List.filterMap_append, List.getLast?_append]
    cases h : field.read top <;> simp [h]

theorem exists_of_lastSet {read : Settings → Option α} {value : α}
    (h : lastSet read layers = some value) : ∃ s ∈ layers, read s = some value :=
  List.mem_filterMap.1 (List.mem_of_getLast? h)

/-! ## Validity -/

theorem validate_eq_ok_iff : s.validate = .ok s ↔ s.maxSteps ≠ some 0 := by
  unfold validate
  split
  · next h => simp [h]
  · next h => simp [h]

/-- Layers that are all valid give valid settings. -/
theorem validate_foldl (h : ∀ s ∈ base :: layers, s.validate = .ok s) :
    (layers.foldl merge base).validate = .ok (layers.foldl merge base) := by
  rw [validate_eq_ok_iff]
  intro hzero
  have hlast := (Field.maxSteps.read_foldl base layers).symm.trans hzero
  obtain ⟨s, hs, hsZero⟩ := exists_of_lastSet hlast
  exact validate_eq_ok_iff.1 (h s hs) hsZero

/-- **Layers of settings.** As full values, sections without settings included: layers may be
grouped at will, a layer over itself or over its own trace changes nothing, nor does one without
any section. Of a base and the layers over it, the last that sets a value settles it, so none
clears what it leaves open. If all of them are valid, so are the settings that result. -/
theorem merge_layers (a b c base : Settings) (layers : List Settings) :
    (a.merge b).merge c = a.merge (b.merge c) ∧
    a.merge a = a ∧ a.merge {} = a ∧ (a.merge b).merge b = a.merge b ∧
    (layers.foldl merge base).run.bind (·.maxSteps) =
      lastSet (·.run.bind (·.maxSteps)) (base :: layers) ∧
    (layers.foldl merge base).run.bind (·.trace) =
      lastSet (·.run.bind (·.trace)) (base :: layers) ∧
    (layers.foldl merge base).run.bind (·.stats) =
      lastSet (·.run.bind (·.stats)) (base :: layers) ∧
    (layers.foldl merge base).output.bind (·.json) =
      lastSet (·.output.bind (·.json)) (base :: layers) ∧
    ((∀ s ∈ base :: layers, s.validate = .ok s) →
      (layers.foldl merge base).validate = .ok (layers.foldl merge base)) :=
  ⟨merge_assoc a b c, merge_self a, merge_empty a, merge_twice a b,
    Field.maxSteps.read_foldl base layers, Field.trace.read_foldl base layers,
    Field.stats.read_foldl base layers, Field.json.read_foldl base layers, validate_foldl⟩

/-- Empty sections on top clear nothing. -/
theorem merge_layers_emptyOnTop :
    ([{ run := some { maxSteps := some 20 }, output := some { json := some true } },
      { run := some {}, output := some {} }].foldl merge
        { run := some { maxSteps := some 10, trace := some false } }).validate =
      .ok { run := some { maxSteps := some 20, trace := some false },
            output := some { json := some true } } := by
  obtain ⟨-, -, -, -, -, -, -, -, hvalid⟩ := merge_layers {} {} {}
    { run := some { maxSteps := some 10, trace := some false } }
    [{ run := some { maxSteps := some 20 }, output := some { json := some true } },
      { run := some {}, output := some {} }]
  refine hvalid ?_
  simp only [List.forall_mem_cons]
  exact ⟨rfl, rfl, rfl, List.forall_mem_nil _⟩

/-- Over settings without any section an empty section on reporting leaves no trace. -/
example : ({} : Settings).merge { output := some {} } = {} := rfl

end LS8.Settings
