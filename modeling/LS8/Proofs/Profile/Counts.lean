import LS8.Proofs.Machine.Profiling

/-!
# What a profile has counted

Of the executions that a profile has recorded it keeps how many there were of each opcode
(`Profile.count_recordAll`) and how many in all (`Profile.total_recordAll`). The counts add up
to the total (`Profile.sum_recordAll`). Nothing else is kept (`Profile.ext_count`), so a profile
does not know in what order the executions were (`Profile.recordAll_perm`).
-/

namespace LS8.Profile

/-- All counts together. -/
def sum (p : Profile) : Nat := Opcode.all.foldr (p.count · + ·) 0

theorem sum_record (p : Profile) (o : Opcode) : (p.record o).sum = p.sum + 1 := by
  cases o <;> simp [sum, Opcode.all, count_record] <;> omega

theorem count_empty (o : Opcode) : empty.count o = 0 := by
  cases o <;> rfl

theorem sum_empty : empty.sum = 0 := rfl

variable (p : Profile) (os : List Opcode)

theorem recordAll_cons (o : Opcode) : p.recordAll (o :: os) = (p.record o).recordAll os := rfl

theorem total_recordAll : (p.recordAll os).total = p.total + os.length := by
  induction os generalizing p with
  | nil => rfl
  | cons o os ih =>
    rw [recordAll_cons, ih, List.length_cons]
    show p.total + 1 + os.length = p.total + (os.length + 1)
    omega

theorem count_recordAll (o : Opcode) : (p.recordAll os).count o = p.count o + os.count o := by
  induction os generalizing p with
  | nil => rfl
  | cons o' os ih =>
    rw [recordAll_cons, ih, count_record, List.count_cons]
    by_cases h : o = o'
    · subst h
      simp only [if_true, beq_self_eq_true]
      omega
    · have hne : (o' == o) = false := beq_eq_false_iff_ne.2 (Ne.symm h)
      simp [h, hne]

theorem sum_recordAll : (p.recordAll os).sum = p.sum + os.length := by
  induction os generalizing p with
  | nil => rfl
  | cons o os ih =>
    rw [recordAll_cons, ih, sum_record, List.length_cons]
    omega

theorem total_recordAll_empty : (empty.recordAll os).total = os.length := by
  rw [total_recordAll]
  exact Nat.zero_add _

theorem count_recordAll_empty (o : Opcode) : (empty.recordAll os).count o = os.count o := by
  rw [count_recordAll, count_empty, Nat.zero_add]

variable {p os} {q : Profile} {os' : List Opcode}

/-- A profile is its total and the counts of the opcodes: there is no more in its table. -/
theorem ext_count (htotal : p.total = q.total) (hcount : ∀ o, p.count o = q.count o) : p = q := by
  have hplace : ∀ i : Fin 9, ∃ o : Opcode, o.index = i := by
    intro i
    refine ⟨Opcode.all[i], ?_⟩
    revert i
    decide
  have hcounts : p.counts = q.counts := Vector.ext fun i hi => by
    obtain ⟨o, ho⟩ := hplace ⟨i, hi⟩
    have hio := hcount o
    simp only [count, ho] at hio
    exact hio
  cases p
  cases q
  rw [mk.injEq]
  exact ⟨htotal, hcounts⟩

/-- **The order of executions is not recorded.** -/
theorem recordAll_perm (h : os.Perm os') : p.recordAll os = p.recordAll os' := by
  refine ext_count ?_ fun o => ?_
  · rw [total_recordAll, total_recordAll, h.length_eq]
  · rw [count_recordAll, count_recordAll, h.count_eq]

end LS8.Profile
