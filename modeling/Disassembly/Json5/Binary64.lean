/-! # The nearest number with 53 significant bits

Numbers in text are kept with 53 significant bits, as the nearest such number, and with an even last
bit if two are equally near. Everything is done in exact arithmetic.
-/

namespace Disassembly.Json5

/-- The natural number nearest to `num / den`; of two equally near ones the even one. -/
def roundHalfEven (num den : Nat) : Nat :=
  let q := num / den
  let twice := 2 * (num % den)
  if den < twice ∨ (twice = den ∧ q % 2 = 1) then q + 1 else q

/-- The whole part of the number with 53 significant bits nearest to `num / den`; none if it is too
large to be kept with an exponent of eleven bits. -/
def roundedFloor? (num den : Nat) : Option Nat :=
  if 2 * num < den then some 0
  else
    -- The number lies between `2 ^ scale` and `2 ^ (scale + 1)`, or between one half and one.
    let scale := (num / den).log2
    let whole :=
      if num < den then roundHalfEven (num <<< 53) den >>> 53
      else if scale < 53 then roundHalfEven (num <<< (52 - scale)) den >>> (52 - scale)
      else roundHalfEven num (den <<< (scale - 52)) <<< (scale - 52)
    if whole < 1 <<< 1024 then some whole else none

/-- The whole part of the number with 53 significant bits nearest to `mantissa * 10 ^ exponent`;
none if it is too large. -/
def decimalFloor? (mantissa : Nat) (exponent : Int) : Option Nat :=
  let digits := (Nat.toDigits 10 mantissa).length
  if mantissa = 0 ∨ digits + exponent < 0 then some 0
  else if 310 < digits + exponent then none
  else if 0 ≤ exponent then roundedFloor? (mantissa * Nat.pow 10 exponent.toNat) 1
  else roundedFloor? mantissa (Nat.pow 10 (-exponent).toNat)

-- the first whole number that is not kept goes to its even neighbour
example : decimalFloor? (1 <<< 53 + 1) 0 = some (1 <<< 53) := by
  decide +kernel

end Disassembly.Json5
