import Mathlib.Data.List.Forall2
import LS8.Proofs.Settings.Denotation
import LS8.Proofs.Toml.Sections

/-!
# Drafts of settings

A `Draft` is what somebody writes into a settings file: settings, except that the limit may be any
integer, also one that no limit can be. `Draft.WrittenAs` says which documents are written from a
draft, in whatever order.

- `Draft.WrittenAs.ofTable_eq_ok_iff`: such a document is read as the settings that the draft is
  of, or as none if the draft is of none;
- `Adds.ofTable_ne_ok`: with a key more that does not belong where it stands, it never is.
-/

namespace LS8

open Toml (Key Literal Entries Sheet Line IsBareKey tableOf)
open Settings (keyText runSection outputSection ofTable)

/-- The section on running as somebody writes it. -/
structure RunDraft where
  maxSteps : Option Int := none
  trace : Option Bool := none
  stats : Option Bool := none

/-- Settings as somebody writes them. -/
structure Draft where
  run : Option RunDraft := none
  output : Option OutputSettings := none

/-- The keys of the section on running that are set. -/
def RunDraft.entries (r : RunDraft) : Entries :=
  (r.maxSteps.map fun n => ("max_steps".toList, Literal.integer n)).toList
    ++ (r.trace.map fun b => ("trace".toList, Literal.boolean b)).toList
    ++ (r.stats.map fun b => ("stats".toList, Literal.boolean b)).toList

/-- The keys of the section on reporting that are set. -/
def OutputSettings.entries (o : OutputSettings) : Entries :=
  (o.json.map fun b => ("json".toList, Literal.boolean b)).toList

/-- A section on running as a draft. -/
def RunSettings.draft (r : RunSettings) : RunDraft where
  maxSteps := r.maxSteps.map Int.ofNat
  trace := r.trace
  stats := r.stats

/-- Settings as a draft. -/
def Settings.draft (s : Settings) : Draft where
  run := s.run.map RunSettings.draft
  output := s.output

namespace Draft

/-- The limit on instructions, if there is one. -/
def limit (d : Draft) : Option Int := d.run.bind (·.maxSteps)

/-- The sections that are present, each with the keys that are set. -/
def sections (d : Draft) : List (Key × Entries) :=
  (d.run.map fun r => ("run".toList, r.entries)).toList
    ++ (d.output.map fun o => ("output".toList, o.entries)).toList

/-- A document with the sections of a draft and nothing else, the sections and the keys of each
in any order. -/
structure WrittenAs (d : Draft) (sheet : Sheet) : Prop where
  top : sheet.top = []
  sections : ∃ ordered, d.sections.Perm ordered ∧
    List.Forall₂ (fun sec sec' => sec.1 = sec'.1 ∧ sec.2.Perm sec'.2) ordered sheet.sections

end Draft

/-- The keys that a section may have. -/
def sectionKeys (name : Key) : List String :=
  if name = "run".toList then ["max_steps", "trace", "stats"] else ["json"]

/-- The second document is the first with one more entry, under a key that does not belong where
the entry stands: at the top, before the first header, or somewhere in a section. -/
inductive Adds (key : Key) (value : Literal) : Sheet → Sheet → Prop
  | top (sections : List (Key × Entries)) (h : keyText key ∉ ["run", "output"]) :
    Adds key value ⟨[], sections⟩ ⟨[(key, value)], sections⟩
  | within (before after : List (Key × Entries)) (name : Key) (left right : Entries)
    (h : keyText key ∉ sectionKeys name) :
    Adds key value ⟨[], before ++ (name, left ++ right) :: after⟩
      ⟨[], before ++ (name, left ++ (key, value) :: right) :: after⟩

/-- A section as it should be: no key is there twice, and each belongs there. -/
structure IsSection (name : Key) (entries : Entries) : Prop where
  known : keyText name ∈ ["run", "output"]
  nodup : (entries.map Prod.fst).Nodup
  keys : ∀ entry ∈ entries, keyText entry.1 ∈ sectionKeys name

variable {s : Settings} {r : RunSettings} {o o' : OutputSettings} {d : Draft}
  {sheet sheet' : Sheet} {entries entries' : Entries} {key name : Key} {value : Literal}

/-! ## Sections -/

theorem toList_keyText (key : Key) : (keyText key).toList = key := by
  rw [keyText, String.toList_ofList]

/-- Keys of settings need no quotation marks. -/
theorem isBareKey_of_mem
    (h : keyText key ∈ ["run", "output", "max_steps", "trace", "stats", "json"]) :
    IsBareKey key := by
  rw [← toList_keyText key]
  generalize keyText key = text at h
  simp only [List.mem_cons, List.not_mem_nil, or_false] at h
  rcases h with rfl | rfl | rfl | rfl | rfl | rfl <;> decide

namespace IsSection

theorem name_eq (h : IsSection name entries) : name = "run".toList ∨ name = "output".toList := by
  have hname := h.known
  rw [List.mem_pair] at hname
  rw [← toList_keyText name]
  exact hname.imp (congrArg String.toList) (congrArg String.toList)

theorem isBareKey_name (h : IsSection name entries) : IsBareKey name := by
  rcases h.name_eq with rfl | rfl <;> decide

theorem isBareKey (h : IsSection name entries) : ∀ entry ∈ entries, IsBareKey entry.1 := by
  intro entry hentry
  have hkey := h.keys entry hentry
  refine isBareKey_of_mem ?_
  rw [sectionKeys] at hkey
  split at hkey
  · exact List.mem_of_mem_take (i := 5) (List.mem_of_mem_drop (i := 2) hkey)
  · exact List.mem_of_mem_drop (i := 5) hkey

theorem perm (h : IsSection name entries) (hperm : entries.Perm entries') :
    IsSection name entries' :=
  ⟨h.known, (hperm.map Prod.fst).nodup_iff.1 h.nodup,
    fun entry hentry => h.keys entry (hperm.mem_iff.2 hentry)⟩

end IsSection

namespace Draft

theorem isSection_run (d : RunDraft) : IsSection "run".toList d.entries := by
  obtain ⟨maxSteps, trace, stats⟩ := d
  refine ⟨by decide, ?_, ?_⟩
  · cases maxSteps <;> cases trace <;> cases stats <;> simp [RunDraft.entries]
  · cases maxSteps <;> cases trace <;> cases stats <;>
      simp [RunDraft.entries, keyText, sectionKeys]

theorem isSection_output (o : OutputSettings) : IsSection "output".toList o.entries := by
  obtain ⟨json⟩ := o
  refine ⟨by decide, ?_, ?_⟩
  · cases json <;> simp [OutputSettings.entries]
  · cases json <;> simp [OutputSettings.entries, keyText, sectionKeys]

theorem forall_mem_toList_map {α β : Type} {x : Option α} {f : α → β} {Q : β → Prop} :
    (∀ y ∈ (x.map f).toList, Q y) ↔ ∀ z ∈ x, Q (f z) := by
  cases x <;> simp

theorem isSection_of_mem (d : Draft) : ∀ sec ∈ d.sections, IsSection sec.1 sec.2 := by
  rw [sections, List.forall_mem_append, forall_mem_toList_map, forall_mem_toList_map]
  exact ⟨fun r _ => isSection_run r, fun o _ => isSection_output o⟩

theorem nodup_sections (d : Draft) : (d.sections.map Prod.fst).Nodup := by
  obtain ⟨run, output⟩ := d
  cases run <;> cases output <;> simp [sections]

theorem lookup_run (d : RunDraft) :
    d.entries.lookup "max_steps".toList = d.maxSteps.map .integer ∧
      d.entries.lookup "trace".toList = d.trace.map .boolean ∧
      d.entries.lookup "stats".toList = d.stats.map .boolean := by
  obtain ⟨maxSteps, trace, stats⟩ := d
  cases maxSteps <;> cases trace <;> cases stats <;> exact ⟨rfl, rfl, rfl⟩

theorem lookup_output (o : OutputSettings) :
    o.entries.lookup "json".toList = o.json.map .boolean := by
  obtain ⟨json⟩ := o
  cases json <;> rfl

theorem lookup_sections (d : Draft) :
    d.sections.lookup "run".toList = d.run.map RunDraft.entries ∧
      d.sections.lookup "output".toList = d.output.map OutputSettings.entries := by
  obtain ⟨run, output⟩ := d
  cases run <;> cases output <;> exact ⟨rfl, rfl⟩

/-! ## Documents of a draft -/

namespace WrittenAs

/-- What does not depend on the order of entries holds of a document if it holds of the draft. -/
theorem forall_sections_iff (h : d.WrittenAs sheet) {Q : Key → Entries → Prop}
    (hQ : ∀ {name entries entries'}, entries.Perm entries' → (Q name entries ↔ Q name entries')) :
    (∀ sec ∈ sheet.sections, Q sec.1 sec.2) ↔ ∀ sec ∈ d.sections, Q sec.1 sec.2 := by
  obtain ⟨ordered, hperm, hsections⟩ := h.sections
  simp only [hperm.mem_iff]
  generalize sheet.sections = sections at hsections
  clear hperm
  induction hsections with
  | nil => simp
  | cons hsec _ ih => rw [List.forall_mem_cons, List.forall_mem_cons, ih, hsec.1, hQ hsec.2]

theorem isSection (h : d.WrittenAs sheet) : ∀ sec ∈ sheet.sections, IsSection sec.1 sec.2 :=
  (h.forall_sections_iff fun hperm => ⟨fun hsec => hsec.perm hperm,
    fun hsec => hsec.perm hperm.symm⟩).2 (isSection_of_mem d)

theorem nodup (h : d.WrittenAs sheet) : (sheet.sections.map Prod.fst).Nodup := by
  obtain ⟨ordered, hperm, hsections⟩ := h.sections
  have hnames : ordered.map Prod.fst = sheet.sections.map Prod.fst := by
    clear hperm
    generalize sheet.sections = sections at hsections
    induction hsections with
    | nil => rfl
    | cons hsec _ ih => rw [List.map_cons, List.map_cons, hsec.1, ih]
  rw [← hnames, ← (hperm.map Prod.fst).nodup_iff]
  exact nodup_sections d

theorem isDocument (h : d.WrittenAs sheet) : sheet.IsDocument where
  nodup := by
    rw [h.top]
    exact h.nodup
  bare := by
    rw [h.top]
    exact nofun
  sections := fun sec hsec =>
    ⟨(h.isSection sec hsec).isBareKey_name, (h.isSection sec hsec).nodup,
      (h.isSection sec hsec).isBareKey⟩

/-- The entries of a section of a document are those of the draft in another order. -/
theorem rel_lookup (h : d.WrittenAs sheet) (name : Key) :
    Option.Rel List.Perm (d.sections.lookup name) (sheet.sections.lookup name) := by
  obtain ⟨ordered, hperm, hsections⟩ := h.sections
  rw [Toml.lookup_eq_of_perm hperm (nodup_sections d)]
  exact Toml.rel_lookup hsections name

end WrittenAs

theorem forall_readable_iff (d : Draft) :
    (∀ sec ∈ d.sections, ∀ entry ∈ sec.2, entry.2.Readable) ↔
      ∀ n ∈ d.limit, -2 ^ 63 ≤ n ∧ n < 2 ^ 63 := by
  simp only [sections, RunDraft.entries, OutputSettings.entries, List.forall_mem_append,
    forall_mem_toList_map, Literal.Readable, implies_true, and_true]
  cases hd : d.run <;> simp [limit, hd]

/-- Only the limit may be such that the lines cannot be read. -/
theorem WrittenAs.readable_iff (h : d.WrittenAs sheet) :
    (∀ line ∈ sheet.lines, line.Readable) ↔ ∀ n ∈ d.limit, -2 ^ 63 ≤ n ∧ n < 2 ^ 63 := by
  rw [Sheet.forall_lines_iff, h.top, ← forall_readable_iff]
  refine (and_iff_right (by simp)).trans ?_
  simp only [Line.Readable, true_and]
  refine h.forall_sections_iff (Q := fun _ entries => ∀ entry ∈ entries, entry.2.Readable) ?_
  intro name entries entries' hperm
  simp only [hperm.mem_iff]

/-! ## Reading -/

theorem runSection_eq_ok_iff {d : RunDraft} (h : d.entries.Perm entries) :
    runSection (.table (tableOf entries)) = .ok r ↔ r.draft = d := by
  have hsection := (isSection_run d).perm h
  have hkeys : ∀ entry ∈ (tableOf entries).entries,
      keyText entry.1 ∈ ["max_steps", "trace", "stats"] :=
    List.forall_mem_map.2 hsection.keys
  have hget : ∀ key, (tableOf entries).get? key = (d.entries.lookup key).map Literal.item := by
    intro key
    rw [Toml.get?_tableOf, Toml.lookup_eq_of_perm h (isSection_run d).nodup]
  obtain ⟨hmaxSteps, htrace, hstats⟩ := lookup_run d
  rw [Settings.runSection_eq_ok_iff, hget, hget, hget, hmaxSteps, htrace, hstats, Option.map_map,
    Option.map_map, Option.map_map]
  refine (and_iff_right hkeys).trans ((and_congr Settings.count_eq_ok_iff
    (and_congr Settings.flag_eq_ok_iff Settings.flag_eq_ok_iff)).trans ?_)
  obtain ⟨maxSteps, trace, stats⟩ := d
  simp [RunSettings.draft]

theorem outputSection_eq_ok_iff (h : o.entries.Perm entries) :
    outputSection (.table (tableOf entries)) = .ok o' ↔ o' = o := by
  have hsection := (isSection_output o).perm h
  have hkeys : ∀ entry ∈ (tableOf entries).entries, keyText entry.1 ∈ ["json"] :=
    List.forall_mem_map.2 hsection.keys
  have hget : ∀ key, (tableOf entries).get? key = (o.entries.lookup key).map Literal.item := by
    intro key
    rw [Toml.get?_tableOf, Toml.lookup_eq_of_perm h (isSection_output o).nodup]
  rw [Settings.outputSection_eq_ok_iff, hget, lookup_output, Option.map_map]
  refine (and_iff_right hkeys).trans (Settings.flag_eq_ok_iff.trans ?_)
  cases o
  cases o'
  simp

/-- A section that may be absent is read back if it is read back when it is present. -/
theorem mapM_eq_ok_iff {α β : Type} {read : Toml.Item → Except Malformation β}
    {entriesOf : α → Entries} {draftOf : β → α} {written : Option α} {found : Option Entries}
    {y : Option β} (hfound : Option.Rel List.Perm (written.map entriesOf) found)
    (hread : ∀ {x entries y}, (entriesOf x).Perm entries →
      (read (.table (tableOf entries)) = .ok y ↔ draftOf y = x)) :
    (found.map fun entries => .table (tableOf entries)).mapM read = .ok y ↔
      y.map draftOf = written := by
  cases written with
  | none =>
    cases hfound
    cases y <;> simp [pure, Except.pure]
  | some x =>
    cases hfound with
    | some hperm =>
      rw [Option.map_some, Settings.mapM_some_eq_ok_iff, Option.map_eq_some_iff]
      simp only [hread hperm]
      exact exists_congr fun z => and_comm

/-- **A document is read as the settings that it is written from**, whatever the order in it. -/
theorem WrittenAs.ofTable_eq_ok_iff (h : d.WrittenAs sheet) :
    ofTable sheet.table = .ok s ↔ s.draft = d := by
  have hkeys : ∀ entry ∈ sheet.table.entries, keyText entry.1 ∈ ["run", "output"] := by
    show ∀ entry ∈ sheet.items, keyText entry.1 ∈ ["run", "output"]
    rw [Sheet.items, h.top]
    exact List.forall_mem_map.2 fun sec hsec => (h.isSection sec hsec).known
  have hrun : (sheet.table.get? "run".toList).mapM runSection = .ok s.run ↔
      s.run.map RunSettings.draft = d.run := by
    rw [Toml.get?_table h.top]
    exact mapM_eq_ok_iff ((lookup_sections d).1 ▸ h.rel_lookup _) runSection_eq_ok_iff
  have houtput : (sheet.table.get? "output".toList).mapM outputSection = .ok s.output ↔
      s.output.map id = d.output := by
    rw [Toml.get?_table h.top]
    exact mapM_eq_ok_iff ((lookup_sections d).2 ▸ h.rel_lookup _) outputSection_eq_ok_iff
  rw [Settings.ofTable_eq_ok_iff, hrun, houtput, and_iff_right hkeys]
  obtain ⟨run, output⟩ := d
  simp [Settings.draft]

end Draft

/-! ## Keys that do not belong -/

namespace Adds

/-- With a key that does not belong there it is still a document. -/
theorem isDocument (h : Adds key value sheet sheet') (hkey : IsBareKey key)
    (hdraft : d.WrittenAs sheet) : sheet'.IsDocument := by
  obtain ⟨hnodup, -, hsections⟩ := hdraft.isDocument
  have hknown := hdraft.isSection
  cases h with
  | top sections hnot =>
    refine ⟨List.nodup_cons.2 ⟨fun hmem => ?_, hnodup⟩, by simpa using hkey, hsections⟩
    obtain ⟨sec, hsec, rfl⟩ := List.mem_map.1 hmem
    exact hnot (hknown sec hsec).known
  | within before after name left right hnot =>
    obtain ⟨hbefore, hrest⟩ := List.forall_mem_append.1 hsections
    obtain ⟨⟨hname, hkeys, hentries⟩, hafter⟩ := List.forall_mem_cons.1 hrest
    have hnew : key ∉ (left ++ right).map Prod.fst := by
      intro hmem
      obtain ⟨entry, hentry, rfl⟩ := List.mem_map.1 hmem
      exact hnot ((hknown (name, left ++ right) (by simp)).keys entry hentry)
    have hperm : (left ++ (key, value) :: right).Perm ((key, value) :: (left ++ right)) :=
      List.perm_middle
    refine ⟨by simpa using hnodup, nofun, List.forall_mem_append.2
      ⟨hbefore, List.forall_mem_cons.2 ⟨⟨hname, ?_, fun entry hentry => ?_⟩, hafter⟩⟩⟩
    · exact (hperm.map Prod.fst).nodup_iff.2 (List.nodup_cons.2 ⟨hnew, hkeys⟩)
    · rcases List.mem_cons.1 (hperm.mem_iff.1 hentry) with rfl | hold
      · exact hkey
      · exact hentries entry hold

/-- **A key that does not belong makes a document denote no settings.** -/
theorem ofTable_ne_ok (h : Adds key value sheet sheet') (hdraft : d.WrittenAs sheet) :
    ofTable sheet'.table ≠ .ok s := by
  intro hok
  obtain ⟨hkeys, hrun, houtput⟩ := Settings.ofTable_eq_ok_iff.1 hok
  have hnodup := hdraft.nodup
  have hknown := hdraft.isSection
  cases h with
  | top sections hnot => exact hnot (hkeys (key, value.item) List.mem_cons_self)
  | within before after name left right hnot =>
    have hmem : (key, value.item) ∈ (tableOf (left ++ (key, value) :: right)).entries :=
      List.mem_map.2 ⟨(key, value), List.mem_append_right _ List.mem_cons_self, rfl⟩
    have hlookup : (before ++ (name, left ++ (key, value) :: right) :: after).lookup name =
        some (left ++ (key, value) :: right) := by
      refine List.lookup_eq_some_iff.2 ⟨before, after, rfl, fun sec hsec => ?_⟩
      rw [List.map_append, List.nodup_append] at hnodup
      exact bne_iff_ne.2 (hnodup.2.2 sec.1 (List.mem_map_of_mem hsec) name
        List.mem_cons_self).symm
    rcases (hknown (name, left ++ right) (by simp)).name_eq with rfl | rfl
    · rw [Toml.get?_table rfl, hlookup, Option.map_some, Settings.mapM_some_eq_ok_iff] at hrun
      obtain ⟨r, hr, -⟩ := hrun
      exact hnot ((Settings.runSection_eq_ok_iff.1 hr).1 _ hmem)
    · rw [Toml.get?_table rfl, hlookup, Option.map_some, Settings.mapM_some_eq_ok_iff] at houtput
      obtain ⟨o, ho, -⟩ := houtput
      exact hnot ((Settings.outputSection_eq_ok_iff.1 ho).1 _ hmem)

end Adds

end LS8
