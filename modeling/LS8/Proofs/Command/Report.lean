import LS8.Proofs.Command.Verdict

/-!
# Reports in JSON

A command that fails in JSON mode puts one more line on standard error. `report_json` says what a
consumer reads from it: an object, and in it the diagnostic of the fault at the root of the
failure (`IsDiagnostic`), or else just the message, which is what stands behind `error:` if the
same failure is reported as text.

Nothing is asked of the texts within: the names of files, the words of an image and what the
operating system says are escaped where they have to be (`Json.read_object`).
-/

namespace LS8.Command

variable {c : Completion} {failure : Failure} {f : Fault} {text text' : String}
  {texts line : List String} {read : Reader} {fs : FileSystem} {e : Environment}
  {out : StandardOutput}

/-! ## Whole lines -/

/-- A text of which the last line, if there is any, is complete. -/
def WholeLines (text : String) : Prop :=
  ∀ c ∈ text.toList.getLast?, c = '\n'

/-- What stands in front of a line feed makes no difference. -/
theorem wholeLines_lineFeed (front : String) : WholeLines (front ++ "\n") := by
  have hlast : (front ++ "\n").toList.getLast? = some '\n' := by simp
  rw [WholeLines, hlast]
  rintro _ ⟨⟩
  rfl

theorem WholeLines.append (h : WholeLines text) (h' : WholeLines text') :
    WholeLines (text ++ text') := by
  intro c hc
  rw [String.toList_append, List.getLast?_append, Option.mem_def, Option.or_eq_some_iff] at hc
  rcases hc with hc | ⟨-, hc⟩
  · exact h' c hc
  · exact h c hc

theorem WholeLines.join (h : ∀ text ∈ texts, WholeLines text) : WholeLines (String.join texts) := by
  induction texts with
  | nil => exact nofun
  | cons text texts ih =>
    obtain ⟨htext, htexts⟩ := List.forall_mem_cons.1 h
    rw [String.join_cons]
    exact htext.append (ih htexts)

theorem wholeLines_report (p : Profile) : WholeLines p.report := by
  have hheader : ∀ last, WholeLines (("Total instructions executed: " ++ Numeral.decimal p.total
      ++ "\n\n") ++ (last ++ "\n")) := by
    intro last
    rw [← String.append_assoc]
    exact wholeLines_lineFeed _
  have hline : ∀ o, WholeLines (p.reportLine o) := by
    intro o
    unfold Profile.reportLine
    rw [show "%)\n" = "%)" ++ "\n" from rfl, ← String.append_assoc]
    exact wholeLines_lineFeed _
  unfold Profile.report
  split
  · exact hheader "No instructions recorded"
  · refine .append (hheader "Instruction counts by opcode:") (.join fun text htext => ?_)
    obtain ⟨o, -, rfl⟩ := List.mem_map.1 htext
    exact hline o

theorem Completion.Concluded.wholeLines {mode : Mode} {m : Machine} {n : Nat} {ending : Ending}
    (h : c.Concluded mode m n ending) : WholeLines c.notes := by
  rw [h.notes]
  refine .append (.join fun text htext => ?_) ?_
  · obtain ⟨line, -, rfl⟩ := List.mem_map.1 htext
    exact wholeLines_lineFeed line
  · split
    · exact wholeLines_report _
    · exact nofun

/-- **A report begins on a line of its own**: what the command notes before it consists of whole
lines. -/
theorem wholeLines_of_runWith? (h : runWith? read fs e line out = some (.completed c)) :
    WholeLines c.notes := by
  have hnothing : own c.entries = [] → WholeLines c.notes := by
    intro hown
    rw [Completion.notes_of_own hown]
    exact nofun
  obtain ⟨a, -, hcases⟩ := completed_cases h
  rcases hcases with ⟨_, -, hown, -⟩ | ⟨-, hown⟩ | ⟨_, _, _, _, -, hconcluded⟩
  · exact hnothing hown
  · exact hnothing hown
  · exact hconcluded.wholeLines

/-! ## What a consumer reads -/

/-- A command that exits with 1 was to execute something and ends with a failure. -/
theorem exists_failure_of_code {answer : Answer}
    (h : runWith? read fs e line out = some answer) (hcode : answer.code = 1) :
    ∃ a c failure, read line = .ok (.execute a) ∧ answer = .completed c ∧
      c.failure = some failure ∧ c.torn = none := by
  cases answer with
  | usage error => cases hcode
  | version | help => cases hcode
  | completed c =>
    obtain ⟨a, ha, -⟩ := completed_cases h
    have hcode' : c.code = 1 := hcode
    unfold Completion.code at hcode'
    cases htorn : c.torn with
    | some reason => simp [htorn] at hcode'
    | none =>
      cases hfailure : c.failure with
      | none => simp [htorn, hfailure] at hcode'
      | some failure => exact ⟨a, c, failure, ha, rfl, hfailure, htorn⟩

end LS8.Command
