import Disassembly.Instruction
import Disassembly.Proofs.Text.Spelling

/-! # Literal operands

An operand is a literal if it is one number and nothing else, between blanks: hexadecimal with no more
digits than an address has, or decimal and no larger than an address. What is read from an operand is
exactly a literal, so every address that is written as an operand reads back.
-/

namespace Disassembly

/-- `cs` is a literal for `n`. -/
inductive IsLiteral (arch : Arch) : List Char → Nat → Prop where
  | hex {x : Char} {digits : List Char} {n : Nat} (hx : x = 'x' ∨ x = 'X')
    (hdigits : Text.Spells 16 digits n) (hlength : digits.length ≤ arch.addressDigits) :
    IsLiteral arch ('0' :: x :: digits) n
  | decimal {digits : List Char} {n : Nat} (hdigits : Text.Spells 10 digits n)
    (hmask : n ≤ arch.addressMask) : IsLiteral arch digits n

variable {arch : Arch} {cs digits : List Char} {n : Nat}

theorem Arch.addressMask_succ (arch : Arch) : arch.addressMask + 1 = 16 ^ arch.addressDigits := by
  have hwide : Text.wordBound - 1 + 1 = 16 ^ 16 := by decide
  cases arch with
  | x86 => decide
  | x64 | other => exact hwide

theorem Arch.addressDigits_pos (arch : Arch) : 0 < arch.addressDigits := by
  cases arch <;> simp [addressDigits]

theorem hexMarked?_eq_some_iff :
    hexMarked? cs = some digits ↔ ∃ x, (x = 'x' ∨ x = 'X') ∧ cs = '0' :: x :: digits := by
  constructor
  · intro h
    unfold hexMarked? at h
    split at h
    · cases h
      exact ⟨'x', .inl rfl, rfl⟩
    · cases h
      exact ⟨'X', .inr rfl, rfl⟩
    · cases h
  · rintro ⟨x, rfl | rfl, rfl⟩ <;> rfl

/-- What is marked as hexadecimal is not decimal. -/
theorem hexMarked?_of_decimal (h : Text.Spells 10 cs n) : hexMarked? cs = none := by
  cases hmark : hexMarked? cs with
  | none => rfl
  | some digits =>
    obtain ⟨x, hx, rfl⟩ := hexMarked?_eq_some_iff.1 hmark
    obtain ⟨-, _, hds, -⟩ := h
    cases hds with
    | cons _ hds =>
      cases hds with
      | cons hd _ =>
        rw [← Text.digit?_eq_some_iff (by decide)] at hd
        rcases hx with rfl | rfl <;> cases hd

theorem IsLiteral.ne_nil (h : IsLiteral arch cs n) : cs ≠ [] := by
  cases h with
  | hex => exact List.cons_ne_nil _ _
  | decimal hdigits => exact hdigits.1

theorem IsLiteral.isBlank_eq_false (h : IsLiteral arch cs n) :
    ∀ c ∈ cs, Text.isBlank c = false := by
  cases h with
  | hex hx hdigits _ =>
    have hdigits := hdigits.isBlank_eq_false (Nat.le_refl 16)
    rcases hx with rfl | rfl
    · exact List.forall_mem_cons.2 ⟨by decide, List.forall_mem_cons.2 ⟨by decide, hdigits⟩⟩
    · exact List.forall_mem_cons.2 ⟨by decide, List.forall_mem_cons.2 ⟨by decide, hdigits⟩⟩
  | decimal hdigits _ => exact hdigits.isBlank_eq_false (by decide)

theorem toOption_eq_some_iff {ε α : Type} {r : Except ε α} {a : α} :
    r.toOption = some a ↔ r = .ok a := by
  cases r <;> simp [Except.toOption]

/-- What is left between blanks is read if it is a literal. -/
theorem literal?_eq_some_iff_trim {operands : String} :
    literal? arch operands = some n ↔ IsLiteral arch (Text.trim operands.toList) n := by
  simp only [literal?, Arch.addressMask_succ]
  generalize Text.trim operands.toList = cs
  constructor
  · intro h
    -- a mark bounds the number of digits, and without one the number itself is bounded
    cases hmark : hexMarked? cs with
    | some digits =>
      obtain ⟨x, hx, rfl⟩ := hexMarked?_eq_some_iff.1 hmark
      rw [hmark] at h
      dsimp only at h
      split at h
      · cases h
      · rename_i hdigits
        rw [not_or, Nat.not_lt] at hdigits
        rw [toOption_eq_some_iff,
          Text.readDigits_eq_ok_iff (by decide) (Nat.le_refl 16) hdigits.1] at h
        exact .hex hx h.1 hdigits.2
    | none =>
      rw [hmark] at h
      dsimp only at h
      split at h
      · cases h
      · rename_i hne
        rw [toOption_eq_some_iff, Text.readDigits_eq_ok_iff (by decide) (by decide) hne,
          ← Arch.addressMask_succ] at h
        exact .decimal h.1 (Nat.le_of_lt_succ h.2)
  · intro h
    cases h with
    | @hex x digits n hx hdigits hlength =>
      have hpow := hdigits.lt_pow (by decide)
      have hbound : n < 16 ^ arch.addressDigits :=
        Nat.lt_of_lt_of_le hpow (Nat.pow_le_pow_right (by decide) hlength)
      rw [hexMarked?_eq_some_iff.2 ⟨x, hx, rfl⟩]
      dsimp only
      rw [if_neg (not_or.2 ⟨hdigits.1, Nat.not_lt.2 hlength⟩), toOption_eq_some_iff,
        Text.readDigits_eq_ok_iff (by decide) (Nat.le_refl 16) hdigits.1]
      exact ⟨hdigits, hbound⟩
    | decimal hdigits hmask =>
      rw [hexMarked?_of_decimal hdigits]
      dsimp only
      rw [if_neg hdigits.1, toOption_eq_some_iff,
        Text.readDigits_eq_ok_iff (by decide) (by decide) hdigits.1, ← Arch.addressMask_succ]
      exact ⟨hdigits, Nat.lt_succ_of_le hmask⟩

theorem literal?_eq_some_iff {operands : String} :
    literal? arch operands = some n ↔
      ∃ core, Text.IsWithinBlanks operands.toList core ∧ IsLiteral arch core n := by
  rw [literal?_eq_some_iff_trim]
  exact Text.trim_iff_exists_isWithinBlanks (P := (IsLiteral arch · n)) (fun _ h => h.ne_nil)
    fun _ h => h.isBlank_eq_false

theorem literal?_of_isLiteral {operands : String} (h : IsLiteral arch operands.toList n) :
    literal? arch operands = some n :=
  literal?_eq_some_iff.2 ⟨_, Text.isWithinBlanks_self, h⟩

theorem length_hexPadded_le {width : Nat} (hwidth : width ≤ arch.addressDigits)
    (hn : n ≤ arch.addressMask) : (Text.hexPadded width n).toList.length ≤ arch.addressDigits := by
  have hdigits : (Nat.toDigits 16 n).length ≤ arch.addressDigits := by
    rw [Nat.length_toDigits_le_iff (by decide) arch.addressDigits_pos, ← Arch.addressMask_succ]
    exact Nat.lt_succ_of_le hn
  rw [Text.toList_hexPadded, List.length_append, List.length_replicate]
  omega

/-- What is read from an operand are exactly the literals. So every address reads back, in decimal and
in hexadecimal, in either case and with zeros in front up to the digits of an address. -/
theorem literals_read_back (arch : Arch) :
    (∀ operands n, literal? arch operands = some n ↔
        ∃ core, Text.IsWithinBlanks operands.toList core ∧ IsLiteral arch core n) ∧
      ∀ n ≤ arch.addressMask, literal? arch (toString n) = some n ∧
        ∀ width ≤ arch.addressDigits, ∀ digits : List Char,
          digits.map Char.toLower = (Text.hexPadded width n).toList →
            literal? arch (String.ofList ('0' :: 'x' :: digits)) = some n := by
  refine ⟨fun _ _ => literal?_eq_some_iff, fun n hn => ⟨?_, ?_⟩⟩
  · apply literal?_of_isLiteral
    rw [show (toString n).toList = Nat.toDigits 10 n from String.toList_ofList]
    exact .decimal (Text.spells_toDigits (by decide) (by decide) 0 n) hn
  · intro width hwidth digits hdigits
    apply literal?_of_isLiteral
    rw [String.toList_ofList]
    have hspells := hdigits ▸ Text.spells_hexPadded width n
    have hlength : digits.length ≤ arch.addressDigits := by
      rw [← List.length_map (f := Char.toLower), hdigits]
      exact length_hexPadded_le hwidth hn
    exact .hex (.inl rfl) hspells.of_toLower hlength

end Disassembly
