import LS8.Settings.File

/-!
# What a document needs to denote settings

A document denotes settings exactly if every key of it belongs where it stands and every value is
of the right kind: `Settings.ofTable_eq_ok_iff` for the document as a whole, and
`Settings.runSection_eq_ok_iff` and `Settings.outputSection_eq_ok_iff` for its sections.
-/

namespace LS8.Settings

variable {t : Toml.Table} {name : String} {names : List String} {fields : List (Option Toml.Item)}
  {s : Settings} {r : RunSettings} {o : OutputSettings}

/-! ## Fields -/

theorem tableFields_eq_ok_iff : tableFields names t = .ok fields ↔
    (∀ entry ∈ t.entries, keyText entry.1 ∈ names) ∧
      names.map (fun name => t.get? name.toList) = fields := by
  unfold tableFields
  cases hfind : t.entries.find? fun entry => !names.contains (keyText entry.1) with
  | none =>
    rw [List.find?_eq_none] at hfind
    simp only [Except.ok.injEq]
    refine (and_iff_right fun entry hentry => ?_).symm
    simpa using hfind entry hentry
  | some entry =>
    refine ⟨nofun, fun h => ?_⟩
    have hmem := List.mem_of_find?_eq_some hfind
    have hnot := List.find?_some hfind
    simp [h.1 entry hmem] at hnot

/-- What comes after the fields of a table does not come if there is a key that is no field. -/
theorem bind_tableFields_eq_ok_iff {α : Type} {x : α}
    {next : List (Option Toml.Item) → Except Malformation α} :
    tableFields names t >>= next = .ok x ↔
      (∀ entry ∈ t.entries, keyText entry.1 ∈ names) ∧
        next (names.map fun name => t.get? name.toList) = .ok x := by
  by_cases hkeys : ∀ entry ∈ t.entries, keyText entry.1 ∈ names
  · rw [tableFields_eq_ok_iff.2 ⟨hkeys, rfl⟩]
    exact (and_iff_right hkeys).symm
  · cases hfields : tableFields names t with
    | error what => exact ⟨nofun, fun h => absurd h.1 hkeys⟩
    | ok fields => exact absurd (tableFields_eq_ok_iff.1 hfields).1 hkeys

/-! ## Values -/

theorem mapM_some_eq_ok_iff {α β : Type} {f : α → Except Malformation β} {x : α} {y : Option β} :
    (some x).mapM f = .ok y ↔ ∃ z, f x = .ok z ∧ y = some z := by
  rw [Option.mapM_some]
  cases f x <;> simp [Functor.map, Except.map, eq_comm]

theorem count_eq_ok_iff {written : Option Int} {N : Option Nat} :
    count name (written.map Toml.Item.integer) = .ok N ↔ N.map Int.ofNat = written := by
  cases written with
  | none => cases N <;> simp [count]
  | some n =>
    rw [Option.map_some, count]
    cases N with
    | none => split <;> simp
    | some N =>
      split
      · simp
        omega
      · simp
        omega

theorem flag_eq_ok_iff {written b : Option Bool} :
    flag name (written.map Toml.Item.boolean) = .ok b ↔ b = written := by
  cases written <;> simp [flag, eq_comm]

/-! ## Sections -/

theorem runSection_eq_ok_iff : runSection (.table t) = .ok r ↔
    (∀ entry ∈ t.entries, keyText entry.1 ∈ ["max_steps", "trace", "stats"]) ∧
      count "max_steps" (t.get? "max_steps".toList) = .ok r.maxSteps ∧
      flag "trace" (t.get? "trace".toList) = .ok r.trace ∧
      flag "stats" (t.get? "stats".toList) = .ok r.stats := by
  obtain ⟨maxSteps, trace, stats⟩ := r
  refine bind_tableFields_eq_ok_iff.trans (and_congr_right fun _ => ?_)
  simp only [List.map_cons, List.map_nil, List.getD_cons_zero, List.getD_cons_succ]
  cases count "max_steps" (t.get? "max_steps".toList) <;>
    cases flag "trace" (t.get? "trace".toList) <;>
    cases flag "stats" (t.get? "stats".toList) <;>
    simp [bind, Except.bind, pure, Except.pure]

theorem outputSection_eq_ok_iff : outputSection (.table t) = .ok o ↔
    (∀ entry ∈ t.entries, keyText entry.1 ∈ ["json"]) ∧
      flag "json" (t.get? "json".toList) = .ok o.json := by
  obtain ⟨json⟩ := o
  refine bind_tableFields_eq_ok_iff.trans (and_congr_right fun _ => ?_)
  simp only [List.map_cons, List.map_nil, List.getD_cons_zero]
  cases flag "json" (t.get? "json".toList) <;>
    simp [bind, Except.bind, pure, Except.pure]

theorem ofTable_eq_ok_iff : ofTable t = .ok s ↔
    (∀ entry ∈ t.entries, keyText entry.1 ∈ ["run", "output"]) ∧
      (t.get? "run".toList).mapM runSection = .ok s.run ∧
      (t.get? "output".toList).mapM outputSection = .ok s.output := by
  obtain ⟨run, output⟩ := s
  refine bind_tableFields_eq_ok_iff.trans (and_congr_right fun _ => ?_)
  simp only [List.map_cons, List.map_nil, List.getD_cons_zero, List.getD_cons_succ]
  cases (t.get? "run".toList).mapM runSection <;>
    cases (t.get? "output".toList).mapM outputSection <;>
    simp [bind, Except.bind, pure, Except.pure]

end LS8.Settings
