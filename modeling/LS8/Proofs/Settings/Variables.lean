import LS8.Proofs.Settings.Loading
import LS8.Proofs.Settings.Merging
import LS8.Proofs.Text.Lines
import LS8.Proofs.Text.Numeral

/-!
# The layer of the environment

The variables of the environment lie over settings as one more layer of settings does:
`Settings.override_merges`. The layer (`Settings.IsLayer`) has a section on running as soon as one
of the variables is set, and in it exactly what the variables say.

Only the limit can be wrong. `Settings.SpellsLimit` are the texts that are one, and
`Settings.limitOfText_eq_ok_iff` says that these are read.
-/

namespace LS8

namespace Environment

variable {e : Environment} {name text : String}

/-- The variable is set to this text. Bytes that are not UTF-8 are no text. -/
def Sets (e : Environment) (name text : String) : Prop :=
  e.entries.lookup name = some text.toUTF8

/-- The environment without a variable. -/
def without (e : Environment) (name : String) : Environment :=
  ⟨e.entries.filter (·.1 != name)⟩

theorem text?_eq_some_iff : e.text? name = some text ↔ e.Sets name text := by
  have hread : ∀ bytes, String.fromUTF8? bytes = some text ↔ bytes = text.toUTF8 := by
    intro bytes
    unfold String.fromUTF8?
    constructor
    · intro h
      split at h
      · obtain rfl := Option.some.inj h
        rfl
      · cases h
    · rintro rfl
      rw [String.toUTF8_eq_toByteArray, dif_pos text.isValidUTF8]
      rfl
  rw [text?, Sets, Option.bind_eq_some_iff]
  constructor
  · rintro ⟨bytes, hbytes, h⟩
    rw [hbytes, (hread bytes).1 h]
  · intro h
    exact ⟨_, h, (hread _).2 rfl⟩

theorem text?_eq_none_iff : e.text? name = none ↔ ∀ text, ¬ e.Sets name text := by
  simp only [Option.eq_none_iff_forall_ne_some, Ne, text?_eq_some_iff]

theorem text?_without_self (e : Environment) (name : String) :
    (e.without name).text? name = none := by
  have hlookup : (e.without name).entries.lookup name = none := by
    rw [List.lookup_eq_none_iff]
    intro entry hentry
    simpa [bne_comm] using (List.mem_filter.1 hentry).2
  rw [text?, hlookup, Option.bind_none]

theorem text?_without_of_ne {other : String} (h : other ≠ name) :
    (e.without name).text? other = e.text? other := by
  have hlookup : ∀ entries : List (String × ByteArray),
      (entries.filter (·.1 != name)).lookup other = entries.lookup other := by
    intro entries
    induction entries with
    | nil => rfl
    | cons entry entries ih =>
      obtain ⟨key, bytes⟩ := entry
      by_cases hkey : key = name
      · subst hkey
        rw [List.filter_cons_of_neg (by simp), ih, List.lookup_cons, beq_false_of_ne h]
      · rw [List.filter_cons_of_pos (by simpa using hkey), List.lookup_cons, List.lookup_cons, ih]
  rw [text?, text?, without, hlookup]

/-- A variable that is set to no text may be left out. -/
theorem text?_without (h : ∀ text, ¬ e.Sets name text) (other : String) :
    (e.without name).text? other = e.text? other := by
  by_cases hother : other = name
  · subst hother
    rw [text?_without_self, text?_eq_none_iff.2 h]
  · exact text?_without_of_ne hother

end Environment

namespace Settings

variable {s s' layer layer' : Settings} {e : Environment} {error : SettingsError} {text : String}
  {N : Nat}

/-! ## Limits -/

/-- The texts of a limit: decimal digits that denote a positive number of 64 bits, which may have
a plus sign right in front, and blanks around both. -/
def SpellsLimit (text : List Char) (N : Nat) : Prop :=
  ∃ front sign digits back, text = front ++ (sign ++ digits) ++ back ∧
    (∀ c ∈ front ++ back, Text.isBlank c = true) ∧ (sign = [] ∨ sign = ['+']) ∧
    Numeral.Denotes 10 digits N ∧ 1 ≤ N ∧ N < 2 ^ 64

/-- Nothing but the blanks around it is trimmed off a signed numeral. -/
theorem trim_numeral {front sign digits back : List Char}
    (hblank : ∀ c ∈ front ++ back, Text.isBlank c = true) (hsign : sign = [] ∨ sign = ['+'])
    (hdigits : Numeral.Denotes 10 digits N) :
    Text.trim (front ++ (sign ++ digits) ++ back) = sign ++ digits := by
  have hdigit : ∀ c ∈ digits, Text.isBlank c = false := by
    intro c hc
    obtain ⟨d, hd, rfl⟩ := Numeral.isDigit_iff.1 (hdigits.isDigit c hc)
    have hall : ∀ d < 10, Text.isBlank (Nat.digitChar d) = false := by decide
    exact hall d hd
  have hne : digits ≠ [] := by
    cases hdigits with
    | digit hd => exact List.cons_ne_nil _ _
    | concat h hd => exact List.concat_ne_nil _ _
  refine Text.trim_append hblank (List.append_ne_nil_of_right_ne_nil _ hne)
    (List.forall_mem_append.2 ⟨fun c hc => ?_, hdigit⟩)
  rcases hsign with rfl | rfl
  · cases hc
  · obtain rfl := List.mem_singleton.1 hc
    rfl

/-- **The limits that are read are those that are spelled.** -/
theorem limitOfText_eq_ok_iff : limitOfText text = .ok N ↔ SpellsLimit text.toList N := by
  have hread : limitOfText text = .ok N ↔
      Numeral.readWord64? (Text.trim text.toList) = some N ∧ 1 ≤ N := by
    rw [Nat.one_le_iff_ne_zero, ← Nat.pos_iff_ne_zero, ← decide_eq_true_iff (p := 0 < N),
      ← Option.filter_eq_some_iff (p := fun N => decide (0 < N))]
    unfold limitOfText
    split
    · next h => rw [h, Except.ok.injEq, Option.some.injEq]
    · next h =>
      rw [h]
      exact ⟨nofun, nofun⟩
  rw [hread, Numeral.readWord64?_eq_some_iff]
  constructor
  · rintro ⟨⟨sign, digits, htrim, hsign, hdigits, hN⟩, hpos⟩
    obtain ⟨front, back, htext, hblank⟩ := Text.exists_eq_append_trim text.toList
    rw [htrim] at htext
    exact ⟨front, sign, digits, back, htext, hblank, hsign, hdigits, hpos, hN⟩
  · rintro ⟨front, sign, digits, back, htext, hblank, hsign, hdigits, hpos, hN⟩
    refine ⟨⟨sign, digits, ?_, hsign, hdigits, hN⟩, hpos⟩
    rw [htext, trim_numeral hblank hsign hdigits]

theorem limitOfText_eq_error_iff : limitOfText text = .error error ↔
    (∀ N, ¬ SpellsLimit text.toList N) ∧ error =
      .invalidValue "LS8_MAX_STEPS" ("'" ++ text ++ "' is not a positive integer") := by
  simp only [← limitOfText_eq_ok_iff]
  unfold limitOfText
  split
  · next limit _ => exact ⟨nofun, fun h => absurd rfl (h.1 limit)⟩
  · exact ⟨fun h => ⟨nofun, (Except.error.inj h).symm⟩, fun h => congrArg Except.error h.2.symm⟩

/-! ## The layer -/

/-- The settings that the variables make up: no section on reporting, and one on running as soon
as a variable is set, in which there is exactly what the variables say. -/
structure IsLayer (e : Environment) (layer : Settings) : Prop where
  output : layer.output = none
  run : layer.run.isSome = true ↔
    ∃ name ∈ ["LS8_MAX_STEPS", "LS8_TRACE", "LS8_STATS"], ∃ text, e.Sets name text
  maxSteps : ∀ N, layer.run.bind (·.maxSteps) = some N ↔
    ∃ text, e.Sets "LS8_MAX_STEPS" text ∧ SpellsLimit text.toList N
  trace : ∀ on, layer.run.bind (·.trace) = some on ↔
    ∃ text, e.Sets "LS8_TRACE" text ∧ (on = true ↔ text.toLower ∈ ["true", "1", "yes", "on"])
  stats : ∀ on, layer.run.bind (·.stats) = some on ↔
    ∃ text, e.Sets "LS8_STATS" text ∧ (on = true ↔ text.toLower ∈ ["true", "1", "yes", "on"])

/-- What is in a section on running, and whether there is one, determines it. -/
theorem run_ext {x y : Option RunSettings} (hsome : x.isSome = y.isSome)
    (hmaxSteps : x.bind (·.maxSteps) = y.bind (·.maxSteps))
    (htrace : x.bind (·.trace) = y.bind (·.trace))
    (hstats : x.bind (·.stats) = y.bind (·.stats)) : x = y := by
  cases x with
  | none => exact (Option.not_isSome_iff_eq_none.1 (by simp [← hsome])).symm
  | some run =>
    obtain ⟨run', rfl⟩ := Option.isSome_iff_exists.1 hsome.symm
    obtain ⟨maxSteps, trace, stats⟩ := run
    simp only [Option.bind_some] at hmaxSteps htrace hstats
    rw [hmaxSteps, htrace, hstats]

/-- There is only one layer. -/
theorem IsLayer.unique (h : IsLayer e layer) (h' : IsLayer e layer') : layer = layer' := by
  have hrun : layer.run = layer'.run := by
    refine run_ext (Bool.eq_iff_iff.2 (h.run.trans h'.run.symm)) ?_ ?_ ?_
    · exact Option.ext fun N => (h.maxSteps N).trans (h'.maxSteps N).symm
    · exact Option.ext fun on => (h.trace on).trans (h'.trace on).symm
    · exact Option.ext fun on => (h.stats on).trans (h'.stats on).symm
  have houtput : layer.output = layer'.output := h.output.trans h'.output.symm
  obtain ⟨run, output⟩ := layer
  obtain ⟨run', output'⟩ := layer'
  simp only at hrun houtput
  rw [hrun, houtput]

/-- The layer that the variables make up, the limit being given. -/
def layerOf (limit : Option Nat) (e : Environment) : Settings where
  run :=
    if limit.isSome || (e.text? "LS8_TRACE").isSome || (e.text? "LS8_STATS").isSome then
      some ⟨limit, (e.text? "LS8_TRACE").map isOn, (e.text? "LS8_STATS").map isOn⟩
    else none

theorem withSwitches_eq_merge (s : Settings) (e : Environment) :
    s.withSwitches e = s.merge (layerOf none e) := by
  obtain ⟨_ | run, output⟩ := s <;> unfold withSwitches layerOf <;>
    cases e.text? "LS8_TRACE" <;> cases e.text? "LS8_STATS" <;> rfl

theorem withSwitches_withLimit_eq_merge (s : Settings) (N : Nat) (e : Environment) :
    (s.withLimit N).withSwitches e = s.merge (layerOf (some N) e) := by
  obtain ⟨_ | run, output⟩ := s <;> unfold withSwitches layerOf <;>
    cases e.text? "LS8_TRACE" <;> cases e.text? "LS8_STATS" <;> rfl

/-- A switch in the layer is what its variable says. -/
theorem map_isOn_eq_some_iff {name : String} {on : Bool} : (e.text? name).map isOn = some on ↔
    ∃ text, e.Sets name text ∧ (on = true ↔ text.toLower ∈ ["true", "1", "yes", "on"]) := by
  have hon : ∀ text, isOn text = on ↔ (on = true ↔ text.toLower ∈ ["true", "1", "yes", "on"]) := by
    intro text
    rw [isOn, ← List.contains_iff_mem, eq_comm, Bool.eq_iff_iff]
  simp only [Option.map_eq_some_iff, Environment.text?_eq_some_iff, hon]

/-- The layer is made if the limit is the one that its variable sets. -/
theorem isLayer_layerOf {limit : Option Nat}
    (hset : limit.isSome = true ↔ ∃ text, e.Sets "LS8_MAX_STEPS" text)
    (hlimit : ∀ N, limit = some N ↔
      ∃ text, e.Sets "LS8_MAX_STEPS" text ∧ SpellsLimit text.toList N) :
    IsLayer e (layerOf limit e) := by
  have hisSome : ∀ name, (e.text? name).isSome = true ↔ ∃ text, e.Sets name text := by
    simp only [Option.isSome_iff_exists, Environment.text?_eq_some_iff, implies_true]
  have hvalues : (layerOf limit e).run.bind (·.maxSteps) = limit ∧
      (layerOf limit e).run.bind (·.trace) = (e.text? "LS8_TRACE").map isOn ∧
      (layerOf limit e).run.bind (·.stats) = (e.text? "LS8_STATS").map isOn := by
    unfold layerOf
    cases limit <;> cases e.text? "LS8_TRACE" <;> cases e.text? "LS8_STATS" <;>
      exact ⟨rfl, rfl, rfl⟩
  obtain ⟨hmaxSteps, htrace, hstats⟩ := hvalues
  refine ⟨rfl, ?_, fun N => ?_, fun on => ?_, fun on => ?_⟩
  · have hpresent : (layerOf limit e).run.isSome = (limit.isSome ||
        (e.text? "LS8_TRACE").isSome || (e.text? "LS8_STATS").isSome) := by
      unfold layerOf
      split
      · next h => exact h.symm
      · next h => exact (eq_false_of_ne_true h).symm
    rw [hpresent, Bool.or_eq_true, Bool.or_eq_true, hset, hisSome, hisSome, or_assoc]
    simp
  · rw [hmaxSteps, hlimit]
  · rw [htrace, map_isOn_eq_some_iff]
  · rw [hstats, map_isOn_eq_some_iff]

/-- If the limit is none or well spelled, the variables are a layer that is laid over settings. -/
theorem exists_isLayer (h : ∀ text, e.Sets "LS8_MAX_STEPS" text → ∃ N, SpellsLimit text.toList N)
    (s : Settings) : ∃ layer, IsLayer e layer ∧ s.override e = .ok (s.merge layer) := by
  cases htext : e.text? "LS8_MAX_STEPS" with
  | none =>
    have hunset := Environment.text?_eq_none_iff.1 htext
    refine ⟨layerOf none e, isLayer_layerOf ⟨nofun, ?_⟩ fun N => ⟨nofun, ?_⟩, ?_⟩
    · rintro ⟨text, hset⟩
      exact absurd hset (hunset text)
    · rintro ⟨text, hset, -⟩
      exact absurd hset (hunset text)
    · rw [override_of_unset htext, withSwitches_eq_merge]
  | some text =>
    have hset := Environment.text?_eq_some_iff.1 htext
    obtain ⟨N, hN⟩ := h text hset
    have hread := limitOfText_eq_ok_iff.2 hN
    refine ⟨layerOf (some N) e, isLayer_layerOf ⟨fun _ => ⟨text, hset⟩, fun _ => rfl⟩
      fun N' => ⟨?_, ?_⟩, ?_⟩
    · rintro ⟨⟩
      exact ⟨text, hset, hN⟩
    · rintro ⟨text', hset', hN'⟩
      obtain rfl := Option.some.inj (htext.symm.trans (Environment.text?_eq_some_iff.2 hset'))
      exact congrArg some (Except.ok.inj (hread.symm.trans (limitOfText_eq_ok_iff.2 hN')))
    · rw [override_of_set htext, hread, ← withSwitches_withLimit_eq_merge]
      rfl

/-! ## Variables over settings -/

/-- A variable that is set to no text counts for nothing. -/
theorem override_without {name : String} (h : ∀ text, ¬ e.Sets name text) (s : Settings) :
    s.override (e.without name) = s.override e := by
  unfold override
  simp only [Environment.text?_without h]

/-- `s'` differs from `s` at most in what a variable of `e` is set to. -/
structure Touches (e : Environment) (s s' : Settings) : Prop where
  output : s'.output = s.output
  maxSteps : (∀ text, ¬ e.Sets "LS8_MAX_STEPS" text) →
    s'.run.bind (·.maxSteps) = s.run.bind (·.maxSteps)
  trace : (∀ text, ¬ e.Sets "LS8_TRACE" text) → s'.run.bind (·.trace) = s.run.bind (·.trace)
  stats : (∀ text, ¬ e.Sets "LS8_STATS" text) → s'.run.bind (·.stats) = s.run.bind (·.stats)
  run : (∀ name ∈ ["LS8_MAX_STEPS", "LS8_TRACE", "LS8_STATS"], ∀ text, ¬ e.Sets name text) →
    s'.run = s.run

theorem IsLayer.touches (h : IsLayer e layer) (s : Settings) : Touches e s (s.merge layer) := by
  have hfield : ∀ {α : Type} (field : Field α), field.read layer = none →
      field.read (s.merge layer) = field.read s := by
    intro α field hnone
    rw [field.read_merge, hnone, Option.none_or]
  refine ⟨?_, fun hunset => hfield .maxSteps ?_, fun hunset => hfield .trace ?_,
    fun hunset => hfield .stats ?_, fun hunset => ?_⟩
  · rw [merge_eq, h.output]
    rfl
  · refine Option.eq_none_iff_forall_ne_some.2 fun N hN => ?_
    obtain ⟨text, hset, -⟩ := (h.maxSteps N).1 hN
    exact hunset text hset
  · refine Option.eq_none_iff_forall_ne_some.2 fun on hon => ?_
    obtain ⟨text, hset, -⟩ := (h.trace on).1 hon
    exact hunset text hset
  · refine Option.eq_none_iff_forall_ne_some.2 fun on hon => ?_
    obtain ⟨text, hset, -⟩ := (h.stats on).1 hon
    exact hunset text hset
  · have hrun : layer.run = none := by
      rw [← Option.not_isSome_iff_eq_none, h.run]
      rintro ⟨name, hname, text, hset⟩
      exact hunset name hname text hset
    rw [merge_eq, hrun]
    rfl

/-- **Variables are one more layer.** They fail exactly if the limit is set to a text that spells
none, which is quoted as it is. Otherwise they make up one layer of settings, and this layer is
laid over the settings, which leaves alone whatever no variable is set for. A variable whose value
is not UTF-8 counts as if it were not there. -/
theorem override_merges (s : Settings) (e : Environment) :
    (∀ error, s.override e = .error error ↔ ∃ text, e.Sets "LS8_MAX_STEPS" text ∧
      (∀ N, ¬ SpellsLimit text.toList N) ∧ error =
        .invalidValue "LS8_MAX_STEPS" ("'" ++ text ++ "' is not a positive integer")) ∧
    ((∀ text, e.Sets "LS8_MAX_STEPS" text → ∃ N, SpellsLimit text.toList N) →
      ∃ layer, IsLayer e layer ∧ (∀ layer', IsLayer e layer' → layer' = layer) ∧
        s.override e = .ok (s.merge layer) ∧ Touches e s (s.merge layer)) ∧
    ∀ name, (∀ text, ¬ e.Sets name text) → s.override (e.without name) = s.override e := by
  refine ⟨fun error => ?_, fun h => ?_, fun name h => override_without h s⟩
  · simp only [override_eq_error_iff, Environment.text?_eq_some_iff, limitOfText_eq_error_iff]
  · obtain ⟨layer, hlayer, hover⟩ := exists_isLayer h s
    exact ⟨layer, hlayer, fun layer' hlayer' => hlayer'.unique hlayer, hover, hlayer.touches s⟩

/-- The limit has a sign, leading zeros and blanks of several kinds; one switch is turned off and
the other is no text. With only a sign there is no limit. -/
theorem override_merges_padded :
    (∃ layer, IsLayer ⟨[("LS8_MAX_STEPS", "\u00a0+0042\n".toUTF8), ("LS8_TRACE", "2".toUTF8),
        ("LS8_STATS", ⟨#[0xff]⟩)]⟩ layer ∧
      merge { run := some ⟨some 5, some true, some true⟩, output := some {} } layer =
        { run := some ⟨some 42, some false, some true⟩, output := some {} }) ∧
    override {} ⟨[("LS8_MAX_STEPS", " + ".toUTF8)]⟩ =
      .error (.invalidValue "LS8_MAX_STEPS" "' + ' is not a positive integer") := by
  constructor
  · obtain ⟨-, hlayer, -⟩ := override_merges
      { run := some ⟨some 5, some true, some true⟩, output := some {} }
      ⟨[("LS8_MAX_STEPS", "\u00a0+0042\n".toUTF8), ("LS8_TRACE", "2".toUTF8),
        ("LS8_STATS", ⟨#[0xff]⟩)]⟩
    obtain ⟨layer, h, -, hover, -⟩ := hlayer fun text htext => by
      obtain rfl : "\u00a0+0042\n" = text :=
        String.toByteArray_inj.1 (Option.some.inj htext)
      exact ⟨42, limitOfText_eq_ok_iff.1 (by decide +kernel)⟩
    refine ⟨layer, h, Except.ok.inj (hover.symm.trans ?_)⟩
    decide +kernel
  · obtain ⟨herror, -⟩ := override_merges {} ⟨[("LS8_MAX_STEPS", " + ".toUTF8)]⟩
    have hsign : limitOfText " + " =
        .error (.invalidValue "LS8_MAX_STEPS" "' + ' is not a positive integer") := by
      decide +kernel
    exact (herror _).2 ⟨" + ", rfl, limitOfText_eq_error_iff.1 hsign⟩

end Settings

end LS8
