import Mathlib.Algebra.BigOperators.Group.List.Lemmas
import LS8.Proofs.Listing.Text
import LS8.Proofs.Profile.Counts
import LS8.Proofs.Text.Numeral

/-!
# The report of a profile

The report shows how often each opcode was executed, and nothing else of what happened.

- `Profile.Ranks os ranked`: the opcodes in `os`, each one once, by how often it occurs there.
  There is one such order (`Ranks.unique`), so the report has it whatever the order in which the
  counts are kept (`ranks_mergeSort`).
- `Profile.Shows line o n`: the first two words of a line of the report.
- `Profile.Reports os shown`: the lines of a report on the opcodes in `os`.
- `Profile.report_of_recorded`: all about the report.
-/

namespace LS8.Profile

open Text (lines words)

variable {p : Profile} {os kept ranked ranked' : List Opcode}

/-! ## The ranking -/

/-- The opcodes that were executed, by how often they were; the more frequent first, and of two
that are equally frequent the one with the smaller byte. -/
structure Ranks (os ranked : List Opcode) : Prop where
  nodup : ranked.Nodup
  mem_iff : ∀ o, o ∈ ranked ↔ o ∈ os
  ordered : ranked.Pairwise fun a b =>
    os.count b < os.count a ∨ os.count a = os.count b ∧ a.byte < b.byte

/-- There is only one ranking. -/
theorem Ranks.unique (h : Ranks os ranked) (h' : Ranks os ranked') : ranked = ranked' := by
  have hperm : ranked.Perm ranked' := (List.perm_ext_iff_of_nodup h.nodup h'.nodup).2 fun o =>
    (h.mem_iff o).trans (h'.mem_iff o).symm
  refine List.Perm.eq_of_pairwise ?_ h.ordered h'.ordered hperm
  intro a b _ _ hab hba
  -- each would have to stand strictly before the other
  simp only [UInt8.lt_iff_toNat_lt] at hab hba
  omega

/-- The counts in a ranking are those of all executions. -/
theorem Ranks.sum_counts (h : Ranks os ranked) : ranked.foldr (os.count · + ·) 0 = os.length := by
  have hperm : ranked.Perm os.dedup :=
    (List.perm_ext_iff_of_nodup h.nodup os.nodup_dedup).2 fun o =>
      (h.mem_iff o).trans List.mem_dedup.symm
  calc
    ranked.foldr (os.count · + ·) 0 = (ranked.map (os.count ·)).sum := by
      rw [List.sum_eq_foldr, List.foldr_map]
    _ = (os.dedup.map (os.count ·)).sum := (hperm.map _).sum_nat
    _ = os.length := List.sum_map_count_dedup_eq_length os

theorem precedes_iff {a b : Opcode} : p.precedes a b = true ↔
    p.count b < p.count a ∨ p.count a = p.count b ∧ a.byte ≤ b.byte := by
  simp [precedes]

/-- **Sorting ranks the opcodes**, whatever their order was before. -/
theorem ranks_mergeSort (hkept : kept.Nodup) (hmem : ∀ o, o ∈ kept ↔ o ∈ os) :
    Ranks os (kept.mergeSort (empty.recordAll os).precedes) := by
  have hperm := kept.mergeSort_perm (empty.recordAll os).precedes
  have hnodup := hperm.nodup_iff.2 hkept
  have htrans : ∀ a b c, (empty.recordAll os).precedes a b = true →
      (empty.recordAll os).precedes b c = true → (empty.recordAll os).precedes a c = true := by
    intro a b c
    simp only [precedes_iff, UInt8.le_iff_toNat_le]
    omega
  have htotal : ∀ a b, ((empty.recordAll os).precedes a b ||
      (empty.recordAll os).precedes b a) = true := by
    intro a b
    rw [Bool.or_eq_true]
    simp only [precedes_iff, UInt8.le_iff_toNat_le]
    omega
  refine ⟨hnodup, fun o => hperm.mem_iff.trans (hmem o), ?_⟩
  refine ((List.pairwise_mergeSort htrans htotal kept).and hnodup).imp ?_
  rintro a b ⟨hab, hne⟩
  rw [precedes_iff, count_recordAll_empty, count_recordAll_empty] at hab
  -- of different opcodes the bytes are different
  have hbyte : a.byte.toNat ≠ b.byte.toNat := fun heq =>
    hne (Opcode.byte_injective (UInt8.toNat_inj.1 heq))
  simp only [UInt8.le_iff_toNat_le, UInt8.lt_iff_toNat_lt] at hab ⊢
  omega

theorem ranks_ranking (os : List Opcode) : Ranks os (empty.recordAll os).ranking := by
  refine ranks_mergeSort (List.Nodup.filter _ (by decide)) fun o => ?_
  have hall : o ∈ Opcode.all := by cases o <;> decide
  simp [hall, count_recordAll_empty, List.count_eq_zero]

/-! ## Lines -/

/-- A line of the report shows an opcode and how often it was executed: by its name and the
count, which are its first two words. -/
def Shows (line : List Char) (o : Opcode) (n : Nat) : Prop :=
  ∃ share, words line = o.mnemonic.toList :: (Numeral.decimal n).toList :: share

/-- The line of an opcode, without its end. -/
def row (p : Profile) (o : Opcode) : List Char :=
  [' ', ' '] ++ o.mnemonic.toList.rightpad 6 ' '
    ++ ' ' :: (Nat.toDigits 10 (p.count o)).leftpad 10 ' '
    ++ ' ' :: '(' :: (percentage (p.count o) p.total).leftpad 6 ' ' ++ ['%', ')']

theorem toList_reportLine (p : Profile) (o : Opcode) :
    (p.reportLine o).toList = p.row o ++ ['\n'] := by
  simp [reportLine, row]

/-- The name and the count are words of their own, however long they are. -/
theorem shows_row (p : Profile) (o : Opcode) : Shows (p.row o) o (p.count o) := by
  have hname : ' ' ∉ o.mnemonic.toList := Instruction.notMem_mnemonic rfl o
  have hnameSome : o.mnemonic.toList ≠ [] := by cases o <;> decide
  have hcount : ' ' ∉ Nat.toDigits 10 (p.count o) := Numeral.notMem_toDigits rfl _
  let share := ' ' :: '(' :: (percentage (p.count o) p.total).leftpad 6 ' ' ++ ['%', ')']
  let behind := List.replicate (6 - o.mnemonic.toList.length) ' ' ++ ' ' ::
    (List.replicate (10 - (Nat.toDigits 10 (p.count o)).length) ' ' ++
      (Nat.toDigits 10 (p.count o) ++ share))
  have hbehind : ∀ c ∈ behind.head?, c = ' ' := by
    cases h : 6 - o.mnemonic.toList.length <;> simp [behind, h, List.replicate_succ]
  refine ⟨words share, ?_⟩
  calc
    words (p.row o) = words (List.replicate 2 ' ' ++ (o.mnemonic.toList ++ behind)) := by
      simp [row, behind, share, List.rightpad, List.leftpad]
    _ = o.mnemonic.toList :: words behind := by
      rw [Text.words_spaces, Text.words_append_of_head hname hnameSome hbehind]
    _ = o.mnemonic.toList :: words (Nat.toDigits 10 (p.count o) ++ share) := by
      rw [Text.words_spaces, Text.words_space, Text.words_spaces]
    _ = o.mnemonic.toList :: (Numeral.decimal (p.count o)).toList :: words share := by
      rw [Text.words_append_of_head hcount Nat.toDigits_ne_nil (by simp [share]), Numeral.decimal,
        String.toList_ofList]

example : (empty.recordAll [.hlt, .ldi, .ldi]).row .ldi =
    "  LDI             2 ( 66.67%)".toList := by
  decide +kernel

theorem lineFeed_notMem_percentage (count total : Nat) : '\n' ∉ percentage count total := by
  have hdigits : ∀ n, '\n' ∉ Nat.toDigits 10 n := Numeral.notMem_toDigits rfl
  simp [percentage, Numeral.padded, List.leftpad, hdigits]

theorem lineFeed_notMem_row (p : Profile) (o : Opcode) : '\n' ∉ p.row o := by
  have hname : '\n' ∉ o.mnemonic.toList := Instruction.notMem_mnemonic rfl o
  have hcount : '\n' ∉ Nat.toDigits 10 (p.count o) := Numeral.notMem_toDigits rfl _
  have hshare := lineFeed_notMem_percentage (p.count o) p.total
  simp [row, List.rightpad, List.leftpad, hname, hcount, hshare]

/-- The lines of the report. -/
def rows (p : Profile) : List (List Char) :=
  ("Total instructions executed: " ++ Numeral.decimal p.total).toList :: [] ::
    match p.ranking with
    | [] => ["No instructions recorded".toList]
    | ranking => "Instruction counts by opcode:".toList :: ranking.map p.row

theorem rows_of_ranking_eq_nil (h : p.ranking = []) :
    p.rows = ("Total instructions executed: " ++ Numeral.decimal p.total).toList :: [] ::
      ["No instructions recorded".toList] := by
  rw [rows, h]

theorem rows_of_ranking_ne_nil (h : p.ranking ≠ []) :
    p.rows = ("Total instructions executed: " ++ Numeral.decimal p.total).toList :: [] ::
      "Instruction counts by opcode:".toList :: p.ranking.map p.row := by
  unfold rows
  cases hranking : p.ranking with
  | nil => exact absurd hranking h
  | cons first more => rfl

theorem toList_report (p : Profile) : p.report.toList = p.rows.flatMap (· ++ ['\n']) := by
  unfold report rows
  cases p.ranking with
  | nil => simp
  | cons first more => simp [toList_reportLine, List.flatMap_map]

theorem lines_report (p : Profile) : lines p.report.toList = p.rows := by
  have htotal : '\n' ∉ (Numeral.decimal p.total).toList := fun hmem =>
    absurd (Numeral.isAlphanum_of_mem_decimal hmem) (by decide)
  rw [toList_report]
  refine Text.lines_flatMap ?_
  unfold rows
  cases p.ranking with
  | nil => simp [htotal]
  | cons first more => simp [htotal, lineFeed_notMem_row]

/-! ## The report -/

/-- The lines of a report on the opcodes `os`: the total, and behind it a line for each opcode
that was executed, or that there was none. -/
inductive Reports : List Opcode → List (List Char) → Prop
  | none : Reports [] ["Total instructions executed: 0".toList, [],
      "No instructions recorded".toList]
  | some {os ranked shown} (hos : os ≠ []) (hranks : Ranks os ranked)
      (hshown : List.Forall₂ (fun o line => Shows line o (os.count o)) ranked shown) :
    Reports os (("Total instructions executed: " ++ Numeral.decimal os.length).toList :: [] ::
      "Instruction counts by opcode:".toList :: shown)

/-- The report on what was executed. -/
theorem reports_rows (os : List Opcode) : Reports os (empty.recordAll os).rows := by
  have hranks := ranks_ranking os
  by_cases hos : os = []
  · subst hos
    have hranking : (empty.recordAll []).ranking = [] :=
      List.eq_nil_iff_forall_not_mem.2 fun o ho => absurd ((hranks.mem_iff o).1 ho) List.not_mem_nil
    rw [rows_of_ranking_eq_nil hranking]
    exact .none
  · have hranking : (empty.recordAll os).ranking ≠ [] := by
      obtain ⟨o, ho⟩ := List.exists_mem_of_ne_nil os hos
      exact List.ne_nil_of_mem ((hranks.mem_iff o).2 ho)
    rw [rows_of_ranking_ne_nil hranking, total_recordAll_empty]
    refine .some hos hranks ?_
    rw [List.forall₂_map_right_iff, List.forall₂_same]
    intro o _
    rw [← count_recordAll_empty]
    exact shows_row _ o

/-- **The report shows the counts, and only these.** It does not depend on the order of the
executions, nor on the order in which the counts are kept. Behind the total it has one line for
each opcode that was executed, the more frequent ones first; their counts add up to the total.
If nothing was executed it says so. -/
theorem report_of_recorded (os : List Opcode) :
    (∀ os', os.Perm os' → (empty.recordAll os).report = (empty.recordAll os').report) ∧
    (∀ kept : List Opcode, kept.Nodup → (∀ o, o ∈ kept ↔ o ∈ os) →
      kept.mergeSort (empty.recordAll os).precedes = (empty.recordAll os).ranking) ∧
    (os ≠ [] → ∃ ranked shown, Ranks os ranked ∧
      List.Forall₂ (fun o line => Shows line o (os.count o)) ranked shown ∧
      ranked.foldr (os.count · + ·) 0 = os.length ∧
      lines (empty.recordAll os).report.toList =
        ("Total instructions executed: " ++ Numeral.decimal os.length).toList :: [] ::
          "Instruction counts by opcode:".toList :: shown) ∧
    (os = [] → lines (empty.recordAll os).report.toList =
      ["Total instructions executed: 0".toList, [], "No instructions recorded".toList]) := by
  have hreports := reports_rows os
  rw [← lines_report] at hreports
  refine ⟨fun os' hperm => by rw [recordAll_perm hperm], fun kept hkept hmem =>
    (ranks_mergeSort hkept hmem).unique (ranks_ranking os), fun hsome => ?_, fun hnone => ?_⟩
  · generalize hlines : lines (empty.recordAll os).report.toList = shown at hreports
    cases hreports with
    | none => exact absurd rfl hsome
    | some _ hranks hshown => exact ⟨_, _, hranks, hshown, hranks.sum_counts, rfl⟩
  · generalize hlines : lines (empty.recordAll os).report.toList = shown at hreports
    cases hreports with
    | none => rfl
    | some hos _ _ => exact absurd hnone hos

/-- Two opcodes that are equally frequent, the smaller byte first. -/
theorem report_of_recorded_tie :
    (empty.recordAll [.ret, .ldi, .hlt, .ldi, .ret]).report =
      (empty.recordAll [.ldi, .ldi, .ret, .ret, .hlt]).report ∧
    [Opcode.hlt, .ldi, .ret].mergeSort (empty.recordAll [.ret, .ldi, .hlt, .ldi, .ret]).precedes =
      (empty.recordAll [.ret, .ldi, .hlt, .ldi, .ret]).ranking ∧
    (∃ shown, List.Forall₂ (fun o line => Shows line o
        ([.ret, .ldi, .hlt, .ldi, .ret].count o)) [Opcode.ret, .ldi, .hlt] shown ∧
      lines (empty.recordAll [.ret, .ldi, .hlt, .ldi, .ret]).report.toList =
        "Total instructions executed: 5".toList :: [] ::
          "Instruction counts by opcode:".toList :: shown) ∧
    lines (empty.recordAll []).report.toList =
      ["Total instructions executed: 0".toList, [], "No instructions recorded".toList] := by
  obtain ⟨hperm, hkept, hreport, -⟩ := report_of_recorded [.ret, .ldi, .hlt, .ldi, .ret]
  obtain ⟨-, -, -, hnone⟩ := report_of_recorded []
  obtain ⟨ranked, shown, hranks, hshown, -, hlines⟩ := hreport (by decide)
  have hexpected : Ranks [.ret, .ldi, .hlt, .ldi, .ret] [.ret, .ldi, .hlt] :=
    ⟨by decide, fun o => by cases o <;> decide, by decide⟩
  obtain rfl := hranks.unique hexpected
  exact ⟨hperm _ (by decide), hkept _ (by decide) (fun o => by cases o <;> decide),
    ⟨shown, hshown, hlines⟩, hnone rfl⟩

end LS8.Profile
