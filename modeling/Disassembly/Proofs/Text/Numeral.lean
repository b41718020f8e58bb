import Disassembly.Text.Numeral

/-! # Written numbers read back

Reading the digits of a number gives the number again, with zeros in front of them or without. So two
numbers that are written alike are the same, and a label tells for which address it was made up.
-/

namespace Disassembly.Text

variable {base bound : Nat}

theorem digit?_digitChar {d : Nat} (hd : d < base) (hbase : base ≤ 16) :
    digit? base d.digitChar = some d := by
  have hall : ∀ d < 16, digit? 16 (Nat.digitChar d) = some d := by decide
  have hvalue := hall d (Nat.lt_of_lt_of_le hd hbase)
  simp only [digit?, Option.filter_eq_some_iff, decide_eq_true_eq] at hvalue ⊢
  exact ⟨hvalue.1, hd⟩

theorem readDigits_append (n : Nat) (cs ds : List Char) :
    readDigits base bound n (cs ++ ds) =
      (readDigits base bound n cs).bind fun m => readDigits base bound m ds := by
  induction cs generalizing n with
  | nil => rfl
  | cons c cs ih =>
    rw [List.cons_append, readDigits, readDigits]
    cases digit? base c with
    | none => rfl
    | some d =>
      dsimp only
      split
      · exact ih (n * base + d)
      · rfl

theorem readDigits_digitChar {n d : Nat} (hd : d < base) (hbase : base ≤ 16)
    (hbound : n * base + d < bound) :
    readDigits base bound n [d.digitChar] = .ok (n * base + d) := by
  rw [readDigits, digit?_digitChar hd hbase]
  simp [hbound, readDigits]

theorem readDigits_toDigits {n : Nat} (hpos : 1 < base) (hbase : base ≤ 16) (hbound : n < bound) :
    readDigits base bound 0 (Nat.toDigits base n) = .ok n := by
  induction n using Nat.strongRecOn with
  | ind n ih =>
    by_cases hlt : n < base
    · rw [Nat.toDigits_of_lt_base hlt, readDigits_digitChar hlt hbase (by omega), Nat.zero_mul,
        Nat.zero_add]
    · -- all digits but the last are those of the quotient
      have hdiv : n / base < n := Nat.div_lt_self (by omega) hpos
      have hmod : n % base < base := Nat.mod_lt n (by omega)
      have hsum : n / base * base + n % base = n := Nat.div_add_mod' n base
      rw [Nat.toDigits_of_base_le hpos (Nat.le_of_not_lt hlt), readDigits_append,
        ih _ hdiv (Nat.lt_trans hdiv hbound)]
      change readDigits base bound (n / base) [(n % base).digitChar] = .ok n
      rw [readDigits_digitChar hmod hbase (by omega), hsum]

theorem readDigits_zeros (hpos : 0 < base) (hbase : base ≤ 16) (hbound : 0 < bound) (k : Nat)
    (cs : List Char) :
    readDigits base bound 0 (List.replicate k '0' ++ cs) = readDigits base bound 0 cs := by
  induction k with
  | zero => rfl
  | succ k ih =>
    have hzero : digit? base '0' = some 0 := digit?_digitChar hpos hbase
    rw [List.replicate_succ, List.cons_append, readDigits, hzero]
    simp [hbound, ih]

/-- A number written with zeros in front reads as that number. -/
theorem readDigits_hexPadded {n : Nat} (width : Nat) (hbound : n < bound) :
    readDigits 16 bound 0 (hexPadded width n).toList = .ok n := by
  rw [hexPadded, String.toList_ofList, padStart,
    readDigits_zeros (by decide) (Nat.le_refl 16) (by omega)]
  exact readDigits_toDigits (by decide) (Nat.le_refl 16) hbound

theorem hexPadded_injective {width m n : Nat} (h : hexPadded width m = hexPadded width n) :
    m = n := by
  have hm : readDigits 16 (m + n + 1) 0 (hexPadded width m).toList = .ok m :=
    readDigits_hexPadded width (by omega)
  have hn : readDigits 16 (m + n + 1) 0 (hexPadded width n).toList = .ok n :=
    readDigits_hexPadded width (by omega)
  rw [h, hn] at hm
  exact (Except.ok.inj hm).symm

theorem label_injective {stem : String} {a b : Nat} (h : label stem a = label stem b) : a = b :=
  hexPadded_injective (String.append_right_inj stem |>.1 h)

end Disassembly.Text
