import Mathlib.Algebra.Group.Nat.Defs
import Mathlib.Data.List.Induction
import Mathlib.Logic.Function.Defs
import LS8.Text.Numeral

/-!
# Numerals read back

Every written form of a number determines the number: `decimal_injective`,
`hexUpper_injective`, `binaryByte_injective`. All three come from one statement,
`Numeral.valueBy_padded`: the digits of a number, leading zeros or not, have the number
as their value.

`Numeral.Denotes` says which digits denote which number, leading zeros or not, and
`Numeral.readWord64?_eq_some_iff` that the readers follow it.

A numeral consists of letters and digits. So a text in which it is followed by a blank, a
comma or a line feed shows where it ends.
-/

namespace LS8.Numeral

variable {base width n : Nat} {value : Char → Nat} {c : Char}

/-- The number that digits denote, most significant first, if `value` gives the value of
each digit. -/
def valueBy (base : Nat) (value : Char → Nat) (digits : List Char) : Nat :=
  digits.foldl (fun n c => base * n + value c) 0

theorem valueBy_concat (digits : List Char) (c : Char) :
    valueBy base value (digits ++ [c]) = base * valueBy base value digits + value c := by
  rw [valueBy, List.foldl_append]
  rfl

theorem valueBy_map (f : Char → Char) (digits : List Char) :
    valueBy base value (digits.map f) = valueBy base (value ∘ f) digits := by
  rw [valueBy, List.foldl_map]
  rfl

/-- The digits of a number denote it. -/
theorem valueBy_toDigits (hbase : 1 < base) (hvalue : ∀ d < base, value (Nat.digitChar d) = d)
    (n : Nat) : valueBy base value (Nat.toDigits base n) = n := by
  induction n using Nat.strongRecOn with
  | ind n ih =>
    by_cases hn : n < base
    · rw [Nat.toDigits_of_lt_base hn]
      simp [valueBy, hvalue n hn]
    · have hle : base ≤ n := Nat.le_of_not_lt hn
      have hdigit : n % base < base := Nat.mod_lt n (Nat.zero_lt_of_lt hbase)
      have hless : n / base < n :=
        Nat.div_lt_self (Nat.lt_of_lt_of_le (Nat.zero_lt_of_lt hbase) hle) hbase
      rw [Nat.toDigits_of_base_le hbase hle, valueBy_concat, ih _ hless, hvalue _ hdigit,
        Nat.div_add_mod]

/-- Leading zeros do not change the value of digits. -/
theorem valueBy_zeros_append (hzero : value '0' = 0) (zeros : Nat) (digits : List Char) :
    valueBy base value (List.replicate zeros '0' ++ digits) = valueBy base value digits := by
  induction zeros with
  | zero => rfl
  | succ zeros ih =>
    rw [List.replicate_succ, List.cons_append, valueBy, List.foldl_cons, hzero, Nat.mul_zero]
    exact ih

theorem valueBy_padded (hbase : 1 < base) (hvalue : ∀ d < base, value (Nat.digitChar d) = d)
    (n : Nat) : valueBy base value (padded base width n) = n := by
  have hzero : value '0' = 0 := hvalue 0 (Nat.zero_lt_of_lt hbase)
  rw [padded, List.leftpad, valueBy_zeros_append hzero]
  exact valueBy_toDigits hbase hvalue n

/-- A number that has not too many digits is filled up to the width exactly. -/
theorem length_padded (hbase : 1 < base) (hwidth : 0 < width) (hn : n < Nat.pow base width) :
    (padded base width n).length = width := by
  rw [padded, List.length_leftpad]
  exact Nat.max_eq_left ((Nat.length_toDigits_le_iff hbase hwidth).2 hn)

/-! ## Numerals -/

/-- Digits that denote a number, most significant first. There is at least one digit; leading
zeros do not count. -/
inductive Denotes (base : Nat) : List Char → Nat → Prop
  | digit {d : Nat} (hd : d < base) : Denotes base [Nat.digitChar d] d
  | concat {digits : List Char} {n d : Nat} (h : Denotes base digits n) (hd : d < base) :
    Denotes base (digits ++ [Nat.digitChar d]) (base * n + d)

/-- What digits denote is their value. -/
theorem denotes_iff (hvalue : ∀ d < base, value (Nat.digitChar d) = d) {digits : List Char} :
    Denotes base digits n ↔ digits ≠ [] ∧ (∀ c ∈ digits, ∃ d < base, c = Nat.digitChar d) ∧
      valueBy base value digits = n := by
  constructor
  · intro h
    induction h with
    | @digit d hd =>
      refine ⟨nofun, List.forall_mem_singleton.2 ⟨d, hd, rfl⟩, ?_⟩
      simp [valueBy, hvalue d hd]
    | @concat digits n d _ hd ih =>
      obtain ⟨-, hdigits, hn⟩ := ih
      refine ⟨List.concat_ne_nil _ _, List.forall_mem_append.2 ⟨hdigits,
        List.forall_mem_singleton.2 ⟨d, hd, rfl⟩⟩, ?_⟩
      rw [valueBy_concat, hn, hvalue d hd]
  · rintro ⟨hne, hdigits, rfl⟩
    induction digits using List.reverseRecOn with
    | nil => exact absurd rfl hne
    | append_singleton digits c ih =>
      obtain ⟨hfront, hlast⟩ := List.forall_mem_append.1 hdigits
      obtain ⟨d, hd, rfl⟩ := List.forall_mem_singleton.1 hlast
      rw [valueBy_concat, hvalue d hd]
      by_cases hnil : digits = []
      · subst hnil
        have hzero : valueBy base value [] = 0 := rfl
        rw [hzero, Nat.mul_zero, Nat.zero_add]
        exact .digit hd
      · exact .concat (ih hnil hfront) hd

/-- The value of a digit in base sixteen, in small letters. -/
def digitValue (c : Char) : Nat :=
  if c.isDigit then c.toNat - '0'.toNat else c.toNat - 'a'.toNat + 10

theorem digitValue_digitChar : ∀ d < 16, digitValue (Nat.digitChar d) = d := by
  decide

/-- Digits denote one number only. -/
theorem Denotes.unique {digits : List Char} {m : Nat} (hbase : base ≤ 16)
    (hm : Denotes base digits m) (hn : Denotes base digits n) : m = n := by
  have hvalue : ∀ d < base, digitValue (Nat.digitChar d) = d := fun d hd =>
    digitValue_digitChar d (Nat.lt_of_lt_of_le hd hbase)
  rw [← ((denotes_iff hvalue).1 hm).2.2, ← ((denotes_iff hvalue).1 hn).2.2]

theorem isDigit_iff : c.isDigit = true ↔ ∃ d < 10, c = Nat.digitChar d := by
  constructor
  · intro h
    obtain ⟨hlow, hhigh⟩ : 48 ≤ c.toNat ∧ c.toNat ≤ 57 := Char.isDigit_iff_toNat.1 h
    have hall : ∀ d < 10, Nat.digitChar d = Char.ofNat (d + 48) := by decide
    refine ⟨c.toNat - 48, by omega, ?_⟩
    rw [hall _ (by omega), Nat.sub_add_cancel hlow, Char.ofNat_toNat]
  · rintro ⟨d, hd, rfl⟩
    have hall : ∀ d < 10, (Nat.digitChar d).isDigit = true := by decide
    exact hall d hd

/-! ## Written forms determine numbers -/

theorem decimal_injective : Function.Injective decimal := by
  intro a b h
  have hdigits : Nat.toDigits 10 a = Nat.toDigits 10 b := String.ofList_injective h
  calc
    a = Nat.ofDigitChars 10 (Nat.toDigits 10 a) 0 := Nat.ofDigitChars_ten_toDigits.symm
    _ = Nat.ofDigitChars 10 (Nat.toDigits 10 b) 0 := by rw [hdigits]
    _ = b := Nat.ofDigitChars_ten_toDigits

/-- The value of a digit in base sixteen, in capitals. -/
def hexValue (c : Char) : Nat :=
  if c.isDigit then c.toNat - '0'.toNat else c.toNat - 'A'.toNat + 10

theorem hexValue_toUpper_digitChar :
    ∀ d < 16, (hexValue ∘ Char.toUpper) (Nat.digitChar d) = d := by
  decide

theorem hexUpper_injective : Function.Injective hexUpper := by
  intro a b h
  have hdigits : (padded 16 2 a).map Char.toUpper = (padded 16 2 b).map Char.toUpper :=
    String.ofList_injective h
  have hvalues := congrArg (valueBy 16 hexValue) hdigits
  rwa [valueBy_map, valueBy_map, valueBy_padded (by decide) hexValue_toUpper_digitChar,
    valueBy_padded (by decide) hexValue_toUpper_digitChar] at hvalues

theorem binaryByte_injective : Function.Injective binaryByte := by
  intro a b h
  have hdigits : padded 2 8 a.toNat = padded 2 8 b.toNat := by
    rw [binaryByte, binaryByte, String.append_right_inj] at h
    exact String.ofList_injective h
  have hvalues := congrArg (valueBy 2 hexValue) hdigits
  rw [valueBy_padded (by decide) (by decide), valueBy_padded (by decide) (by decide)] at hvalues
  exact UInt8.toNat_inj.1 hvalues

/-! ## What numerals consist of -/

/-- Every character of a numeral is a digit of the base. -/
theorem exists_digitChar_of_mem_toDigits (hbase : 1 < base) (hc : c ∈ Nat.toDigits base n) :
    ∃ d < base, c = Nat.digitChar d := by
  induction n using Nat.strongRecOn with
  | ind n ih =>
    by_cases hn : n < base
    · rw [Nat.toDigits_of_lt_base hn] at hc
      exact ⟨n, hn, List.mem_singleton.1 hc⟩
    · have hle : base ≤ n := Nat.le_of_not_lt hn
      rw [Nat.toDigits_of_base_le hbase hle] at hc
      rcases List.mem_append.1 hc with hfront | hlast
      · have hpos : 0 < n := Nat.lt_of_lt_of_le (Nat.zero_lt_of_lt hbase) hle
        exact ih _ (Nat.div_lt_self hpos hbase) hfront
      · exact ⟨n % base, Nat.mod_lt n (Nat.zero_lt_of_lt hbase), List.mem_singleton.1 hlast⟩

theorem exists_digitChar_of_mem_padded (hbase : 1 < base) (hc : c ∈ padded base width n) :
    ∃ d < base, c = Nat.digitChar d := by
  rw [padded, List.leftpad] at hc
  rcases List.mem_append.1 hc with hzero | hdigit
  · exact ⟨0, Nat.zero_lt_of_lt hbase, List.eq_of_mem_replicate hzero⟩
  · exact exists_digitChar_of_mem_toDigits hbase hdigit

/-- A written number denotes itself, with zeros in front or without. -/
theorem denotes_padded (hbase : 1 < base) (hle : base ≤ 16) (width n : Nat) :
    Denotes base (padded base width n) n := by
  have hvalue : ∀ d < base, digitValue (Nat.digitChar d) = d := fun d hd =>
    digitValue_digitChar d (Nat.lt_of_lt_of_le hd hle)
  refine (denotes_iff hvalue).2 ⟨?_, fun c => exists_digitChar_of_mem_padded hbase,
    valueBy_padded hbase hvalue n⟩
  rw [padded, List.leftpad]
  exact List.append_ne_nil_of_right_ne_nil _ Nat.toDigits_ne_nil

theorem notMem_toDigits (hc : c.isDigit = false) (n : Nat) : c ∉ Nat.toDigits 10 n := by
  intro hmem
  rw [Nat.isDigit_of_mem_toDigits (by decide) (by decide) hmem] at hc
  cases hc

theorem isAlphanum_of_mem_decimal (hc : c ∈ (decimal n).toList) : c.isAlphanum = true := by
  rw [decimal, String.toList_ofList] at hc
  have hdigit := Nat.isDigit_of_mem_toDigits (by decide) (by decide) hc
  simp [Char.isAlphanum, hdigit]

theorem isAlphanum_of_mem_hexUpper (hc : c ∈ (hexUpper n).toList) : c.isAlphanum = true := by
  rw [hexUpper, String.toList_ofList] at hc
  obtain ⟨digit, hdigit, rfl⟩ := List.mem_map.1 hc
  obtain ⟨d, hd, rfl⟩ := exists_digitChar_of_mem_padded (by decide) hdigit
  have hall : ∀ d < 16, (Nat.digitChar d).toUpper.isAlphanum = true := by decide
  exact hall d hd

theorem isAlphanum_of_mem_hexAddress (hc : c ∈ (hexAddress n).toList) : c.isAlphanum = true := by
  have hall : ∀ d < 16, (Nat.digitChar d).isAlphanum = true := by decide
  rw [hexAddress, String.toList_append] at hc
  rcases List.mem_append.1 hc with hmark | hdigit
  · have hmarks : c = '0' ∨ c = 'x' := by simpa using hmark
    rcases hmarks with rfl | rfl
    · rfl
    · rfl
  · rw [String.toList_ofList] at hdigit
    obtain ⟨d, hd, rfl⟩ := exists_digitChar_of_mem_padded (by decide) hdigit
    exact hall d hd

theorem isAlphanum_of_mem_binaryByte {b : UInt8} (hc : c ∈ (binaryByte b).toList) :
    c.isAlphanum = true := by
  have hall : ∀ d < 2, (Nat.digitChar d).isAlphanum = true := by decide
  rw [binaryByte, String.toList_append] at hc
  rcases List.mem_append.1 hc with hmark | hdigit
  · have hmarks : c = '0' ∨ c = 'b' := by simpa using hmark
    rcases hmarks with rfl | rfl
    · rfl
    · rfl
  · rw [String.toList_ofList] at hdigit
    obtain ⟨d, hd, rfl⟩ := exists_digitChar_of_mem_padded (by decide) hdigit
    exact hall d hd

/-! ## Reading decimal numbers -/

/-- A decimal numeral is read as what it denotes. -/
theorem ofDecimal?_eq_some_iff {digits : List Char} :
    ofDecimal? digits = some n ↔ Denotes 10 digits n := by
  have hvalue : ∀ d < 10, (Nat.digitChar d).toNat - '0'.toNat = d := by decide
  have hread : valueBy 10 (fun c => c.toNat - '0'.toNat) digits = Nat.ofDigitChars 10 digits 0 :=
    rfl
  rw [@denotes_iff 10 n (fun c => c.toNat - '0'.toNat) hvalue digits, hread]
  simp only [← isDigit_iff]
  unfold ofDecimal?
  split
  · next h =>
    rw [Option.some.injEq]
    exact ⟨fun hn => ⟨h.1, List.all_eq_true.1 h.2, hn⟩, fun hn => hn.2.2⟩
  · next h =>
    exact ⟨nofun, fun hn => absurd ⟨hn.1, List.all_eq_true.2 hn.2.1⟩ h⟩

theorem denotes_toDigits (n : Nat) : Denotes 10 (Nat.toDigits 10 n) n :=
  ofDecimal?_eq_some_iff.1 (ofDecimal?_toDigits n)

theorem Denotes.isDigit {digits : List Char} (h : Denotes 10 digits n) :
    ∀ c ∈ digits, c.isDigit = true := by
  have hvalue : ∀ d < 10, digitValue (Nat.digitChar d) = d := by decide
  intro c hc
  exact isDigit_iff.2 (((denotes_iff hvalue).1 h).2.1 c hc)

/-- **A number of 64 bits** is read from a decimal numeral, which may have a plus sign in front. -/
theorem readWord64?_eq_some_iff {text : List Char} : readWord64? text = some n ↔
    ∃ sign digits, text = sign ++ digits ∧ (sign = [] ∨ sign = ['+']) ∧ Denotes 10 digits n ∧
      n < 2 ^ 64 := by
  have hread : ∀ digits, (ofDecimal? digits).filter (· < Nat.pow 2 64) = some n ↔
      Denotes 10 digits n ∧ n < 2 ^ 64 := by
    intro digits
    rw [Option.filter_eq_some_iff, ofDecimal?_eq_some_iff, decide_eq_true_iff, Nat.pow_eq]
  constructor
  · intro h
    unfold readWord64? at h
    split at h
    · next rest => exact ⟨['+'], rest, rfl, .inr rfl, (hread rest).1 h⟩
    · exact ⟨[], text, rfl, .inl rfl, (hread text).1 h⟩
  · rintro ⟨sign, digits, rfl, rfl | rfl, hdigits, hn⟩
    · have hfirst : ∀ rest, digits ≠ '+' :: rest := by
        rintro rest rfl
        exact absurd (hdigits.isDigit '+' List.mem_cons_self) (by decide)
      unfold readWord64?
      split
      · next rest h => exact absurd h (hfirst rest)
      · exact (hread digits).2 ⟨hdigits, hn⟩
    · exact (hread digits).2 ⟨hdigits, hn⟩

/-- Only zero begins with a zero. -/
theorem head?_toDigits_ne_zero (hbase : 1 < base) (hle : base ≤ 16) (hn : 0 < n) :
    (Nat.toDigits base n).head? ≠ some '0' := by
  have hdigit : ∀ d < 16, 0 < d → Nat.digitChar d ≠ '0' := by decide
  induction n using Nat.strongRecOn with
  | ind n ih =>
    rcases Nat.lt_or_ge n base with hlt | hge
    · rw [Nat.toDigits_of_lt_base hlt]
      exact fun h => hdigit n (Nat.lt_of_lt_of_le hlt hle) hn (Option.some.inj h)
    · have hfront := ih (n / base) (Nat.div_lt_self hn hbase)
        (Nat.div_pos hge (Nat.zero_lt_of_lt hbase))
      obtain ⟨c, more, hdigits⟩ := List.exists_cons_of_ne_nil
        (Nat.toDigits_ne_nil : Nat.toDigits base (n / base) ≠ [])
      rw [Nat.toDigits_of_base_le hbase hge, hdigits]
      rwa [hdigits] at hfront

/-- A word that shows a number in base sixteen: in capitals, with two digits at least, and with
no more zeros in front than that takes. -/
def IsHex (word : String) (n : Nat) : Prop :=
  ∃ digits, Denotes 16 digits n ∧ word.toList = digits.map Char.toUpper ∧ 2 ≤ digits.length ∧
    (digits.length = 2 ∨ digits.head? ≠ some '0')

theorem isHex_hexUpper (n : Nat) : IsHex (hexUpper n) n := by
  have hlength : (padded 16 2 n).length = max 2 (Nat.toDigits 16 n).length :=
    List.length_leftpad ..
  refine ⟨padded 16 2 n, denotes_padded (by decide) (by decide) 2 n, ?_, by omega, ?_⟩
  · rw [hexUpper, String.toList_ofList]
  · rcases Nat.lt_or_ge 2 (Nat.toDigits 16 n).length with hlong | hshort
    · have hn : 0 < n := by
        refine Nat.pos_of_ne_zero fun hzero => ?_
        rw [hzero] at hlong
        exact absurd hlong (by decide)
      have hnone : 2 - (Nat.toDigits 16 n).length = 0 := by omega
      right
      rw [padded, List.leftpad, hnone]
      exact head?_toDigits_ne_zero (by decide) (by decide) hn
    · left
      omega

/-- No sign stands in front of a decimal number. -/
theorem head?_toList_decimal (n : Nat) :
    (decimal n).toList.head? ≠ some '+' ∧ (decimal n).toList.head? ≠ some '-' := by
  have hfirst : ∀ c, (decimal n).toList.head? = some c → c.isAlphanum = true := by
    intro c hc
    exact isAlphanum_of_mem_decimal (List.mem_of_mem_head? hc)
  constructor
  · intro h
    exact absurd (hfirst _ h) (by decide)
  · intro h
    exact absurd (hfirst _ h) (by decide)

/-- A number below `2 ^ 64` is read back from its decimal form. -/
theorem readWord64?_decimal (hn : n < Nat.pow 2 64) : readWord64? (decimal n).toList = some n := by
  have hsign := (head?_toList_decimal n).1
  have hread : ofDecimal? (decimal n).toList = some n := by
    rw [decimal, String.toList_ofList]
    exact ofDecimal?_toDigits n
  unfold readWord64?
  split
  · next rest hplus => exact absurd (congrArg List.head? hplus) hsign
  · show (ofDecimal? (decimal n).toList).filter (· < Nat.pow 2 64) = some n
    rw [hread]
    exact Option.filter_some_pos (decide_eq_true hn)

end LS8.Numeral
