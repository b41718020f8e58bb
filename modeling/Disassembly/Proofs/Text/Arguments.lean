import Disassembly.Proofs.Text.Spelling

/-! # Numbers given as arguments

An argument is a number behind a mark for its base and an optional plus sign, between blanks. What is
read are exactly the arguments for 64-bit numbers. So a number reads back however it is written, and
so does the address in a label.
-/

namespace Disassembly.Text

/-- A mark in front of a number, and the base that it stands for. -/
inductive Marks : List Char → Nat → Prop where
  | decimal : Marks [] 10
  | lower : Marks ['0', 'x'] 16
  | upper : Marks ['0', 'X'] 16
  | dollar : Marks ['$'] 16

def IsArgument (cs : List Char) (n : Nat) : Prop :=
  ∃ mark base sign digits, cs = mark ++ (sign ++ digits) ∧ Marks mark base ∧
    (sign = [] ∨ sign = ['+']) ∧ Spells base digits n ∧ n < 2 ^ 64

theorem wordBound_eq : wordBound = 2 ^ 64 := by
  decide

namespace Marks

variable {mark : List Char} {base : Nat}

theorem base_bounds (h : Marks mark base) : 1 < base ∧ base ≤ 16 := by
  cases h <;> decide

theorem isBlank_eq_false (h : Marks mark base) : ∀ c ∈ mark, isBlank c = false := by
  cases h with
  | decimal => exact fun c hc => absurd hc List.not_mem_nil
  | lower | upper | dollar => simp [isBlank, blankRanges]

end Marks

variable {cs : List Char} {n : Nat}

theorem IsArgument.ne_nil (h : IsArgument cs n) : cs ≠ [] := by
  obtain ⟨mark, base, sign, digits, rfl, -, -, hdigits, -⟩ := h
  simp [hdigits.1]

theorem IsArgument.isBlank_eq_false (h : IsArgument cs n) : ∀ c ∈ cs, isBlank c = false := by
  obtain ⟨mark, base, sign, digits, rfl, hmark, hsign, hdigits, -⟩ := h
  have hplus : ∀ c ∈ sign, isBlank c = false := by
    rcases hsign with rfl | rfl <;> simp [isBlank, blankRanges]
  rw [List.forall_mem_append, List.forall_mem_append]
  exact ⟨hmark.isBlank_eq_false, hplus, hdigits.isBlank_eq_false hmark.base_bounds.2⟩

theorem readArgument_eq_ok_iff_trim {text : String} :
    readArgument text = .ok n ↔ IsArgument (trim text.toList) n := by
  have hunsigned {base : Nat} {mark cs : List Char} (hmark : Marks mark base)
      (h : readUnsigned base wordBound cs = .ok n) : IsArgument (mark ++ cs) n := by
    obtain ⟨sign, digits, rfl, hsign, hdigits, hbound⟩ :=
      (readUnsigned_eq_ok_iff (Nat.zero_lt_of_lt hmark.base_bounds.1) hmark.base_bounds.2).1 h
    exact ⟨mark, base, sign, digits, rfl, hmark, hsign, hdigits, wordBound_eq ▸ hbound⟩
  constructor
  · intro h
    unfold readArgument at h
    split at h
    · rename_i hcs
      exact hcs ▸ hunsigned .lower h
    · rename_i hcs
      exact hcs ▸ hunsigned .upper h
    · rename_i hcs
      exact hcs ▸ hunsigned .dollar h
    · exact hunsigned .decimal h
  · rintro ⟨mark, base, sign, digits, hcs, hmark, hsign, hdigits, hbound⟩
    have hread : readUnsigned base wordBound (sign ++ digits) = .ok n :=
      (readUnsigned_eq_ok_iff (Nat.zero_lt_of_lt hmark.base_bounds.1) hmark.base_bounds.2).2
        ⟨sign, digits, rfl, hsign, hdigits, wordBound_eq ▸ hbound⟩
    rw [readArgument, hcs]
    cases hmark with
    | lower | upper | dollar => exact hread
    | decimal =>
      -- no decimal number has a mark in front
      rw [List.nil_append]
      generalize sign ++ digits = cs at hread
      split
      · cases hread
      · cases hread
      · cases hread
      · exact hread

/-- A text is read as a number exactly if it is an argument for it between blanks. -/
theorem readArgument_eq_ok_iff {text : String} :
    readArgument text = .ok n ↔ ∃ core, IsWithinBlanks text.toList core ∧ IsArgument core n := by
  rw [readArgument_eq_ok_iff_trim]
  exact trim_iff_exists_isWithinBlanks (P := (IsArgument · n)) (fun _ h => h.ne_nil)
    fun _ h => h.isBlank_eq_false

theorem readArgument_of_spells {mark digits : List Char} {base : Nat} {text : String}
    (hmark : Marks mark base) (hdigits : Spells base digits n) (hbound : n < 2 ^ 64)
    (htext : text.toList = mark ++ digits) : readArgument text = .ok n := by
  rw [readArgument_eq_ok_iff]
  refine ⟨mark ++ digits, htext ▸ isWithinBlanks_self, ?_⟩
  exact ⟨mark, base, [], digits, rfl, hmark, .inl rfl, hdigits, hbound⟩

/-- What is read are exactly the arguments. So every number reads back from its decimal form and from
its hexadecimal form behind a mark, in either case and with any number of zeros in front, and so does
the address in a label; and labels with one stem are of one address if they are the same. -/
theorem arguments_read_back :
    (∀ text n, readArgument text = .ok n ↔
        ∃ core, IsWithinBlanks text.toList core ∧ IsArgument core n) ∧
      (∀ n < 2 ^ 64, ∀ mark base zeros digits, Marks mark base →
        digits.map Char.toLower = List.replicate zeros '0' ++ Nat.toDigits base n →
          readArgument (String.ofList (mark ++ digits)) = .ok n) ∧
      (∀ stem, ∀ address < 2 ^ 64, ∃ rest, label (stem ++ "0x") address = stem ++ rest ∧
        readArgument rest = .ok address) ∧
      ∀ stem a b, label stem a = label stem b → a = b := by
  refine ⟨fun _ _ => readArgument_eq_ok_iff, ?_, ?_, fun _ _ _ => label_injective⟩
  · intro n hn mark base zeros digits hmark hdigits
    have hspells := hdigits ▸ spells_toDigits hmark.base_bounds.1 hmark.base_bounds.2 zeros n
    exact readArgument_of_spells hmark hspells.of_toLower hn String.toList_ofList
  · intro stem address haddress
    refine ⟨"0x" ++ hexPadded 8 address, String.append_assoc, ?_⟩
    exact readArgument_of_spells .lower (spells_hexPadded 8 address) haddress String.toList_append

end Disassembly.Text
