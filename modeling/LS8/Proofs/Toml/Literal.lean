import Mathlib.Algebra.Group.Int.Defs
import LS8.Proofs.Text.Lines
import LS8.Proofs.Text.Numeral
import LS8.Toml.Document

/-!
# Plain values of TOML

An integer in base ten or a truth value is read as what it is, up to where it ends
(`Toml.Literal.item?_of_readable`), unless the integer has more than 64 bits
(`Toml.Literal.item?_of_not_readable`).

A reader that sees a digit first tries whether it is the beginning of a date, a time or a number
with a fraction, and takes a number for an integer only if it is none of these. What can stand
right behind a value (`Toml.Stops`) rules them out.
-/

namespace LS8.Toml

/-- A value as somebody writes it: an integer in base ten, which may be too large to be read, or
a truth value. -/
inductive Literal where
  | integer (n : Int)
  | boolean (b : Bool)

namespace Literal

/-- What is written for a value. -/
def text : Literal → List Char
  | integer n => (if n < 0 then ['-'] else []) ++ Nat.toDigits 10 n.natAbs
  | boolean true => ['t', 'r', 'u', 'e']
  | boolean false => ['f', 'a', 'l', 's', 'e']

/-- What a value is read as. -/
def item : Literal → Item
  | integer n => .integer n
  | boolean b => .boolean b

/-- A value can be read: an integer has to have 64 bits. -/
def Readable : Literal → Prop
  | integer n => -2 ^ 63 ≤ n ∧ n < 2 ^ 63
  | boolean _ => True

end Literal

/-- What can come right behind a value. -/
def Stops (tail : List Char) : Prop :=
  ∀ c ∈ tail.head?, c = ' ' ∨ c = '\t' ∨ c = '#' ∨ c = '\n' ∨ c = '\r'

variable {tail digits rest : List Char} {c : Char} {n : Nat}

/-! ## What a value begins with and what stops it -/

theorem isBare_ne {c d : Char} (hc : isBare c = true) (hd : isBare d = false) : c ≠ d := by
  rintro rfl
  rw [hc] at hd
  cases hd

theorem isSpace_of_isBare {c : Char} (hc : isBare c = true) : isSpace c = false := by
  rw [isSpace, Bool.or_eq_false_iff, beq_eq_false_iff_ne, beq_eq_false_iff_ne]
  exact ⟨isBare_ne hc rfl, isBare_ne hc rfl⟩

theorem Stops.isDigit (h : Stops tail) : ∀ c ∈ tail.head?, c.isDigit = false := by
  intro c hc
  rcases h c hc with rfl | rfl | rfl | rfl | rfl <;> rfl

theorem Stops.fraction? (h : Stops tail) : fraction? tail = none := by
  cases tail with
  | nil => rfl
  | cons c more => rcases h c rfl with rfl | rfl | rfl | rfl | rfl <;> rfl

theorem Stops.exponent? (h : Stops tail) : exponent? tail = none := by
  cases tail with
  | nil => rfl
  | cons c more => rcases h c rfl with rfl | rfl | rfl | rfl | rfl <;> rfl

theorem Stops.digitTail (h : Stops tail) : digitTail Char.isDigit tail = ([], tail) := by
  cases tail with
  | nil => rfl
  | cons c more => rcases h c rfl with rfl | rfl | rfl | rfl | rfl <;> rfl

/-- A mark within a date or a time is neither a digit nor does it stop a value. -/
theorem expect?_eq_none {mark : Char} (hmark : mark = '-' ∨ mark = ':')
    (hrest : ∀ c ∈ rest.head?, c.isDigit = true ∨ Stops [c]) : expect? mark rest = none := by
  cases rest with
  | nil => rfl
  | cons c more =>
    refine if_neg ?_
    rintro rfl
    rcases hrest c rfl with hdigit | hstop
    · rcases hmark with rfl | rfl <;> cases hdigit
    · rcases hmark with rfl | rfl <;> rcases hstop _ rfl with h | h | h | h | h <;> cases h

/-! ## Runs of digits -/

theorem isDigit_toDigits (n : Nat) : ∀ c ∈ Nat.toDigits 10 n, c.isDigit = true :=
  fun _ hc => Nat.isDigit_of_mem_toDigits (by decide) (by decide) hc

theorem exists_toDigits_eq_cons (n : Nat) :
    ∃ c more, Nat.toDigits 10 n = c :: more ∧ c.isDigit = true := by
  obtain ⟨c, more, heq⟩ := List.exists_cons_of_ne_nil (Nat.toDigits_ne_nil : Nat.toDigits 10 n ≠ [])
  exact ⟨c, more, heq, isDigit_toDigits n c (heq ▸ List.mem_cons_self)⟩

theorem digitTail_append (hdigits : ∀ c ∈ digits, c.isDigit = true) (h : Stops tail) :
    digitTail Char.isDigit (digits ++ tail) = (digits, tail) := by
  induction digits with
  | nil => exact h.digitTail
  | cons c digits ih =>
    obtain ⟨hc, hdigits⟩ := List.forall_mem_cons.1 hdigits
    rw [List.cons_append, digitTail, ih hdigits, if_pos hc]
    rintro _ _ rfl -
    cases hc

/-- The digits of a number are read up to where they end. -/
theorem unsigned?_toDigits (n : Nat) (h : Stops tail) :
    unsigned? (Nat.toDigits 10 n ++ tail) = some (Nat.toDigits 10 n, tail) := by
  rcases Nat.eq_zero_or_pos n with rfl | hn
  · rfl
  · have hzero : (Nat.toDigits 10 n).head? ≠ some '0' :=
      Numeral.head?_toDigits_ne_zero (by decide) (by decide) hn
    have hdigits := isDigit_toDigits n
    obtain ⟨c, more, heq, -⟩ := exists_toDigits_eq_cons n
    rw [heq] at hzero hdigits ⊢
    obtain ⟨hc, hmore⟩ := List.forall_mem_cons.1 hdigits
    rw [List.cons_append, unsigned?, digits?, if_pos hc, digitTail_append hmore h]
    intro rest hrest
    exact hzero (congrArg some (List.cons.inj hrest).1)

/-- Behind some of the digits of a number there are more of them, or the value is over. -/
theorem head?_drop_digits {count : Nat} (hdigits : ∀ c ∈ digits, c.isDigit = true)
    (h : Stops tail) (hlength : ((digits ++ tail).take count).length = count)
    (hall : ((digits ++ tail).take count).all Char.isDigit = true) :
    ∀ c ∈ ((digits ++ tail).drop count).head?, c.isDigit = true ∨ Stops [c] := by
  induction digits generalizing count with
  | nil =>
    cases count with
    | zero =>
      intro c hc
      refine .inr ?_
      rintro _ ⟨⟩
      exact h c hc
    | succ count =>
      cases tail with
      | nil => cases hlength
      | cons c more =>
        have hc : c.isDigit = true := by
          rw [List.nil_append, List.take_succ_cons, List.all_cons, Bool.and_eq_true] at hall
          exact hall.1
        rw [h.isDigit c rfl] at hc
        cases hc
  | cons d digits ih =>
    obtain ⟨hd, hdigits⟩ := List.forall_mem_cons.1 hdigits
    cases count with
    | zero =>
      rintro _ ⟨⟩
      exact .inl hd
    | succ count =>
      simp only [List.cons_append, List.take_succ_cons, List.length_cons, List.all_cons,
        Nat.succ.injEq, Bool.and_eq_true, List.drop_succ_cons] at hlength hall ⊢
      exact ih hdigits hlength hall.2

/-! ## Reading a value -/

namespace Literal

/-- An integer begins with its sign or with a digit. -/
theorem exists_integer_eq_cons (n : Int) (tail : List Char) :
    ∃ c more, (integer n).text ++ tail = c :: more ∧ (c.isDigit = true ∨ c = '-') := by
  obtain ⟨c, more, heq, hc⟩ := exists_toDigits_eq_cons n.natAbs
  rw [text, heq]
  split
  · exact ⟨_, _, rfl, .inr rfl⟩
  · exact ⟨_, _, rfl, .inl hc⟩

/-- A value begins with a character that could also be in a key. -/
theorem exists_text_eq_cons (value : Literal) (tail : List Char) :
    ∃ c more, value.text ++ tail = c :: more ∧ isBare c = true := by
  cases value with
  | integer n =>
    obtain ⟨c, more, heq, hc⟩ := exists_integer_eq_cons n tail
    refine ⟨c, more, heq, ?_⟩
    rcases hc with hc | rfl
    · simp [isBare, Char.isAlphanum, hc]
    · rfl
  | boolean b => cases b <;> exact ⟨_, _, rfl, rfl⟩

theorem sign_text (n : Int) (tail : List Char) :
    sign ((integer n).text ++ tail) = (decide (n < 0), Nat.toDigits 10 n.natAbs ++ tail) := by
  obtain ⟨c, more, heq, hc⟩ := exists_toDigits_eq_cons n.natAbs
  rw [text, heq]
  by_cases hn : n < 0
  · simp [hn, sign]
  · rw [if_neg hn, decide_eq_false hn, List.nil_append, List.cons_append]
    unfold sign
    split
    · next h => cases (List.cons.inj h).1; cases hc
    · next h => cases (List.cons.inj h).1; cases hc
    · rfl

theorem decimal?_text (n : Int) (h : Stops tail) : decimal? ((integer n).text ++ tail) =
    if inRange n then some (n, tail) else none := by
  have habs : (if decide (n < 0) = true then -(n.natAbs : Int) else n.natAbs) = n := by
    split
    · next hn => have := of_decide_eq_true hn; omega
    · next hn => have := of_decide_eq_false (Bool.not_eq_true _ ▸ hn); omega
  unfold decimal?
  rw [sign_text]
  simp only [unsigned?_toDigits _ h, Option.bind_eq_bind, Option.bind_some,
    Nat.ofDigitChars_ten_toDigits, habs]

theorem inRange_iff {n : Int} : inRange n = true ↔ (integer n).Readable := by
  simp only [inRange, Readable, Bool.and_eq_true, decide_eq_true_eq]
  exact Iff.rfl

/-- No mark of another base comes behind a zero. -/
theorem integer?_text (n : Int) (h : Stops tail) : integer? ((integer n).text ++ tail) =
    if inRange n then some (n, tail) else none := by
  have hzero : ∀ {c more}, (integer n).text ++ tail = '0' :: c :: more → Stops [c] := by
    rintro c more heq _ ⟨⟩
    -- only zero begins with a zero, so what comes behind it is the tail
    have hn : n = 0 := by
      by_contra hn
      rw [text] at heq
      split at heq
      · cases heq
      · have hfirst : (Nat.toDigits 10 n.natAbs).head? ≠ some '0' :=
          Numeral.head?_toDigits_ne_zero (by decide) (by decide) (Int.natAbs_pos.2 hn)
        obtain ⟨d, digits, hdigits, -⟩ := exists_toDigits_eq_cons n.natAbs
        rw [hdigits] at heq hfirst
        exact hfirst (congrArg some (List.cons.inj heq).1)
    subst hn
    obtain rfl : tail = c :: more := (List.cons.inj heq).2
    exact h c rfl
  rw [← decimal?_text n h]
  unfold integer?
  split
  · next heq => rcases hzero heq _ rfl with h | h | h | h | h <;> cases h
  · next heq => rcases hzero heq _ rfl with h | h | h | h | h <;> cases h
  · next heq => rcases hzero heq _ rfl with h | h | h | h | h <;> cases h
  · rfl

theorem float?_text (n : Int) (h : Stops tail) : float? ((integer n).text ++ tail) = none := by
  have hfinite : finite? ((integer n).text ++ tail) = none := by
    unfold finite?
    rw [sign_text]
    simp [unsigned?_toDigits _ h, h.fraction?, h.exponent?]
  have hspecial : special? ((integer n).text ++ tail) = none := by
    obtain ⟨c, more, heq, hc⟩ := exists_toDigits_eq_cons n.natAbs
    unfold special?
    rw [sign_text, heq]
    split
    · next h => cases (List.cons.inj h).1; cases hc
    · next h => cases (List.cons.inj h).1; cases hc
    · rfl
  rw [float?, hfinite, hspecial]
  rfl

/-- No mark of a date or a time comes behind digits. -/
theorem head?_of_field? {n : Int} {count low high m : Nat} (h : Stops tail) (hcount : 0 < count)
    (hf : field? count low high ((integer n).text ++ tail) = some (m, rest)) :
    ∀ c ∈ rest.head?, c.isDigit = true ∨ Stops [c] := by
  simp only [field?] at hf
  split at hf
  · next hfield =>
    obtain ⟨rfl, rfl⟩ := Prod.mk.inj (Option.some.inj hf)
    obtain ⟨hlength, hall, -⟩ := hfield
    rw [text] at hlength hall ⊢
    split at hlength
    · next hn =>
      -- a sign is no digit
      obtain ⟨count, rfl⟩ := Nat.exists_eq_succ_of_ne_zero (Nat.ne_of_gt hcount)
      rw [if_pos hn, List.append_assoc, List.singleton_append, List.take_succ_cons] at hall
      cases hall
    · next hn =>
      rw [if_neg hn, List.nil_append] at hall ⊢
      exact head?_drop_digits (isDigit_toDigits _) h hlength hall
  · cases hf

theorem moment?_text (n : Int) (h : Stops tail) : moment? ((integer n).text ++ tail) = none := by
  have hdate : date? ((integer n).text ++ tail) = none := by
    unfold date?
    cases hf : field? 4 0 9999 ((integer n).text ++ tail) with
    | none => rfl
    | some found =>
      simp [expect?_eq_none (.inl rfl) (head?_of_field? h (by decide) hf)]
  have htime : time? ((integer n).text ++ tail) = none := by
    unfold time?
    cases hf : field? 2 0 23 ((integer n).text ++ tail) with
    | none => rfl
    | some found =>
      simp [expect?_eq_none (.inr rfl) (head?_of_field? h (by decide) hf)]
  rw [moment?, hdate, htime]

/-- An integer is no date, no time and no number with a fraction. -/
theorem scalar?_integer (n : Int) (h : Stops tail) : scalar? ((integer n).text ++ tail) =
    if inRange n then some (.integer n, tail) else none := by
  obtain ⟨c, more, heq, hc⟩ := exists_integer_eq_cons n tail
  have hmarks : ¬ (c = quote ∨ c = apostrophe) ∧ c ≠ 't' ∧ c ≠ 'f' := by
    refine ⟨?_, ?_, ?_⟩
    · rintro (rfl | rfl) <;> rcases hc with hc | hc <;> cases hc
    · rintro rfl; rcases hc with hc | hc <;> cases hc
    · rintro rfl; rcases hc with hc | hc <;> cases hc
  have hmoment := moment?_text n h
  have hfloat := float?_text n h
  have hinteger := integer?_text n h
  rw [heq] at hmoment hfloat hinteger ⊢
  simp only [scalar?, if_neg hmarks.1, if_neg hmarks.2.1, if_neg hmarks.2.2, hmoment, hfloat,
    hinteger]
  split <;> rfl

/-- A value begins with neither a bracket nor a brace, so how deep it stands is all the same. -/
theorem item?_text (depth : Nat) (value : Literal) (tail : List Char) :
    item? depth (value.text ++ tail) = scalar? (value.text ++ tail) := by
  obtain ⟨c, more, heq, hc⟩ := exists_text_eq_cons value tail
  rw [heq]
  cases depth with
  | zero => rfl
  | succ depth =>
    rw [item?]
    · intro rest h
      exact isBare_ne hc (rfl : isBare '[' = false) (List.cons.inj h).1
    · intro rest h
      exact isBare_ne hc (rfl : isBare '\x7b' = false) (List.cons.inj h).1

/-- **A value is read** up to where it ends. -/
theorem item?_of_readable {value : Literal} (hvalue : value.Readable) (depth : Nat)
    (h : Stops tail) : item? depth (value.text ++ tail) = some (value.item, tail) := by
  rw [item?_text]
  cases value with
  | integer n => rw [scalar?_integer n h, if_pos (inRange_iff.2 hvalue)]; rfl
  | boolean b => cases b <;> rfl

/-- An integer that has more than 64 bits is refused. -/
theorem item?_of_not_readable {value : Literal} (hvalue : ¬ value.Readable) (depth : Nat)
    (h : Stops tail) : item? depth (value.text ++ tail) = none := by
  rw [item?_text]
  cases value with
  | integer n => rw [scalar?_integer n h, if_neg (mt inRange_iff.1 hvalue)]
  | boolean b => exact absurd trivial hvalue

end Literal

end LS8.Toml
