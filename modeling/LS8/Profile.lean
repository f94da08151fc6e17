import LS8.Opcode
import LS8.Profile.Percentage

/-!
# Profiles

How often each opcode was executed. `Profile.record` counts one execution,
`Profile.report` writes the counts as a table: the most frequent opcode first,
and of two that are equally frequent the one with the smaller byte.
-/

namespace LS8

/-- The place of an opcode in the table of counts. -/
def Opcode.index : Opcode → Fin 9
  | hlt => 0
  | ldi => 1
  | prn => 2
  | add => 3
  | mul => 4
  | push => 5
  | pop => 6
  | call => 7
  | ret => 8

theorem Opcode.index_inj {o o' : Opcode} : o.index = o'.index ↔ o = o' := by
  have hall : ∀ o : Opcode, Opcode.all[o.index]? = some o := by
    rintro (_ | _) <;> rfl
  refine ⟨fun h => Option.some.inj ?_, congrArg _⟩
  rw [← hall o, ← hall o', h]

/-- Counts of executed instructions. -/
structure Profile where
  total : Nat
  counts : Vector Nat 9
deriving DecidableEq, Repr

namespace Profile

/-- Nothing counted yet. -/
def empty : Profile := ⟨0, Vector.replicate 9 0⟩

instance : Inhabited Profile := ⟨empty⟩

/-- How often an opcode was recorded. -/
def count (p : Profile) (o : Opcode) : Nat :=
  p.counts[o.index]

/-- Counts one execution of an opcode. -/
def record (p : Profile) (o : Opcode) : Profile where
  total := p.total + 1
  counts := p.counts.set o.index (p.count o + 1)

/-- Recording adds one to the count of the opcode and changes no other count. -/
theorem count_record (p : Profile) (o o' : Opcode) :
    (p.record o).count o' = if o' = o then p.count o + 1 else p.count o' := by
  by_cases h : o' = o
  · subst h
    simp [count, record]
  · have hne : (o.index : Nat) ≠ o'.index := by
      rw [Ne, Fin.val_inj, Opcode.index_inj]
      exact Ne.symm h
    simp [count, record, h, hne]

/-! ## The report -/

/-- Whether `a` may stand before `b` in the report. -/
def precedes (p : Profile) (a b : Opcode) : Bool :=
  p.count b < p.count a || (p.count a == p.count b && a.byte ≤ b.byte)

/-- The recorded opcodes in the order of the report. -/
def ranking (p : Profile) : List Opcode :=
  (Opcode.all.filter fun o => p.count o != 0).mergeSort p.precedes

/-- The line of an opcode: its name, its count and its share. -/
def reportLine (p : Profile) (o : Opcode) : String :=
  "  " ++ String.ofList (o.mnemonic.toList.rightpad 6 ' ')
    ++ " " ++ String.ofList ((Nat.toDigits 10 (p.count o)).leftpad 10 ' ')
    ++ " (" ++ String.ofList ((percentage (p.count o) p.total).leftpad 6 ' ') ++ "%)\n"

/-- The report as text. -/
def report (p : Profile) : String :=
  let header := "Total instructions executed: " ++ Numeral.decimal p.total ++ "\n\n"
  match p.ranking with
  | [] => header ++ "No instructions recorded\n"
  | ranking =>
    header ++ "Instruction counts by opcode:\n" ++ String.join (ranking.map p.reportLine)

end Profile

end LS8
