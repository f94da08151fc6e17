import LS8.Text.Numeral

/-!
# Percentages

The share of a count in a total, as the report prints it: with two decimals.

The share is computed in binary floating point with 53 significant bits, rounding
to nearest and ties to even after the division and again after the
multiplication by one hundred; the result is then rounded to hundredths from its
exact value, again ties to even. All of it is done in natural numbers: a
floating-point number is the `Ratio` that it denotes.
-/

namespace LS8.Profile

/-- A ratio of natural numbers; the denominator is never zero in what follows. -/
structure Ratio where
  num : Nat
  den : Nat
deriving DecidableEq, Repr

/-- The quotient rounded to the nearest natural number, a half to the even one. -/
def roundHalfEven (num den : Nat) : Nat :=
  let quotient := num / den
  let twice := 2 * (num % den)
  if twice < den then quotient
  else if den < twice then quotient + 1
  else quotient + quotient % 2

/-- The rounded quotient is at most a half away from the exact one. -/
theorem roundHalfEven_bounds {num den : Nat} (h : 0 < den) :
    2 * num ≤ 2 * (den * roundHalfEven num den) + den
      ∧ 2 * (den * roundHalfEven num den) ≤ 2 * num + den := by
  have hq : den * (num / den) + num % den = num := Nat.div_add_mod num den
  have hr : num % den < den := Nat.mod_lt _ h
  unfold roundHalfEven
  simp only
  split
  · omega
  · split
    · rw [Nat.mul_add]
      omega
    · rcases Nat.mod_two_eq_zero_or_one (num / den) with h0 | h1
      · rw [h0]
        simp only [Nat.add_zero]
        omega
      · rw [h1, Nat.mul_add]
        omega

/-- A half goes to the even neighbour. -/
theorem roundHalfEven_even {num den : Nat} (h : 2 * (num % den) = den) :
    roundHalfEven num den % 2 = 0 := by
  unfold roundHalfEven
  simp only [h, Nat.lt_irrefl, if_false]
  omega

/-- The number of significant bits. -/
def precision : Nat := 53

/-- The nearest ratio with 53 significant bits. The numerator is first scaled up so
far that the quotient has more bits than are kept; the surplus is rounded off. -/
def Ratio.toBinary (r : Ratio) : Ratio :=
  if r.num = 0 then ⟨0, 1⟩ else
    -- scaled up like this, the quotient has more than 53 bits whatever the ratio
    let up := precision + r.den.log2 + 1
    let num := r.num * Nat.pow 2 up
    let surplus := (num / r.den).log2 + 1 - precision
    ⟨roundHalfEven num (r.den * Nat.pow 2 surplus) * Nat.pow 2 surplus, Nat.pow 2 up⟩

/-- The share of `count` in `total` in hundredths of a per cent. -/
def hundredths (count total : Nat) : Nat :=
  let share := Ratio.toBinary ⟨count, total⟩
  let percent := Ratio.toBinary ⟨share.num * 100, share.den⟩
  roundHalfEven (percent.num * 100) percent.den

/-- The share of `count` in `total` in per cent, with two decimals. -/
def percentage (count total : Nat) : List Char :=
  let h := hundredths count total
  Nat.toDigits 10 (h / 100) ++ '.' :: Numeral.padded 10 2 (h % 100)

end LS8.Profile
