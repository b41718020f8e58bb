import Disassembly.Proofs.Text.Numeral
import Mathlib.Data.List.Forall2
import Mathlib.Data.List.TakeWhile
import Mathlib.Data.Nat.Digits.Defs
import Mathlib.Tactic.Ring

/-! # Spelled numbers

A number is spelled by one or more digits, most significant first, in either case and with any number
of zeros in front. What reads as a number is exactly what spells one that is small enough, although
reading gives up at the first digit at which the number is too large.
-/

namespace Disassembly.Text

/-- `c` stands for the digit `d` of `base`, in either case. -/
def IsDigit (base : Nat) (c : Char) (d : Nat) : Prop :=
  d < base ∧ c.toLower = d.digitChar

/-- `cs` are the digits of `n`, of which there is at least one. -/
def Spells (base : Nat) (cs : List Char) (n : Nat) : Prop :=
  cs ≠ [] ∧ ∃ ds, List.Forall₂ (IsDigit base) cs ds ∧ n = Nat.ofDigits base ds.reverse

section Digit

variable {base : Nat} {c : Char} {d : Nat}

/-- What holds of all codes of ASCII holds of the characters there. -/
theorem of_ascii (P : Char → Prop) (h : ∀ n < 128, P (Char.ofNat n)) (hc : c.toNat < 128) : P c := by
  have hc' := h c.toNat hc
  rwa [Char.ofNat_toNat] at hc'

theorem toLower_of_not_ascii (hc : ¬ c.toNat < 128) : c.toLower = c := by
  refine dif_neg ?_
  rintro ⟨-, hle⟩
  exact hc (Nat.lt_of_le_of_lt (UInt32.le_iff_toNat_le.1 hle) (by decide))

theorem toLower_toLower (c : Char) : c.toLower.toLower = c.toLower := by
  by_cases hc : c.toNat < 128
  · exact of_ascii (fun c => c.toLower.toLower = c.toLower) (by decide +kernel) hc
  · rw [toLower_of_not_ascii hc, toLower_of_not_ascii hc]

theorem digit?_of_not_ascii (hc : ¬ c.toNat < 128) : digit? 16 c = none := by
  have hle : ∀ a : Char, a.toNat < 128 → ¬ c ≤ a := fun a ha hle =>
    hc (Nat.lt_of_le_of_lt (UInt32.le_iff_toNat_le.1 hle) ha)
  rw [digit?, if_neg fun h => hle '9' (by decide) h.2, if_neg fun h => hle 'f' (by decide) h.2,
    if_neg fun h => hle 'F' (by decide) h.2]
  rfl

/-- A digit of a base is one of sixteen, and small enough. -/
theorem digit?_eq_some_iff_of_le (hbase : base ≤ 16) :
    digit? base c = some d ↔ d < base ∧ digit? 16 c = some d := by
  simp only [digit?, Option.filter_eq_some_iff, decide_eq_true_eq]
  constructor
  · rintro ⟨hvalue, hd⟩
    exact ⟨hd, hvalue, by omega⟩
  · rintro ⟨hd, hvalue, -⟩
    exact ⟨hvalue, hd⟩

theorem digit?_eq_some_iff (hbase : base ≤ 16) : digit? base c = some d ↔ IsDigit base c d := by
  rw [digit?_eq_some_iff_of_le hbase]
  apply and_congr_right
  intro hd
  have hsmall : d < 16 := Nat.lt_of_lt_of_le hd hbase
  by_cases hc : c.toNat < 128
  · exact of_ascii (fun c => ∀ d < 16, digit? 16 c = some d ↔ c.toLower = d.digitChar)
      (by decide +kernel) hc d hsmall
  · have hchar : ∀ d < 16, (Nat.digitChar d).toNat < 128 := by decide
    rw [digit?_of_not_ascii hc, toLower_of_not_ascii hc]
    constructor
    · nofun
    · rintro rfl
      exact absurd (hchar d hsmall) hc

theorem IsDigit.isBlank_eq_false (h : IsDigit base c d) (hbase : base ≤ 16) :
    isBlank c = false := by
  have hdigit := ((digit?_eq_some_iff_of_le hbase).1 ((digit?_eq_some_iff hbase).2 h)).2
  by_cases hc : c.toNat < 128
  · apply of_ascii (fun c => digit? 16 c ≠ none → isBlank c = false) (by decide +kernel) hc
    rw [hdigit]
    nofun
  · cases (digit?_of_not_ascii hc).symm.trans hdigit

theorem IsDigit.of_toLower (h : IsDigit base c.toLower d) : IsDigit base c d := by
  rwa [IsDigit, toLower_toLower] at h

theorem not_isDigit_plus (hbase : base ≤ 16) : ¬ IsDigit base '+' d := by
  intro h
  cases (digit?_eq_some_iff_of_le hbase).1 ((digit?_eq_some_iff hbase).2 h) |>.2

end Digit

section Digits

variable {base bound m n : Nat} {cs : List Char}

/-- The value of digits `ds` behind the number `n`, most significant first. -/
def valueBehind (base n : Nat) (ds : List Nat) : Nat :=
  n * base ^ ds.length + Nat.ofDigits base ds.reverse

theorem valueBehind_cons (n d : Nat) (ds : List Nat) :
    valueBehind base n (d :: ds) = valueBehind base (n * base + d) ds := by
  simp only [valueBehind, List.reverse_cons, Nat.ofDigits_append, Nat.ofDigits_singleton,
    List.length_reverse, List.length_cons, pow_succ]
  ring

theorem valueBehind_zero (ds : List Nat) : valueBehind base 0 ds = Nat.ofDigits base ds.reverse := by
  rw [valueBehind, Nat.zero_mul, Nat.zero_add]

theorem le_valueBehind (hpos : 0 < base) (n : Nat) (ds : List Nat) : n ≤ valueBehind base n ds := by
  have hpow : 0 < base ^ ds.length := Nat.pow_pos hpos
  exact Nat.le_add_right_of_le (Nat.le_mul_of_pos_right n hpow)

theorem exists_digits_of_readDigits (hbase : base ≤ 16) (h : readDigits base bound n cs = .ok m) :
    ∃ ds, List.Forall₂ (IsDigit base) cs ds ∧ m = valueBehind base n ds ∧ (cs ≠ [] → m < bound) := by
  induction cs generalizing n with
  | nil =>
    cases h
    exact ⟨[], .nil, by simp [valueBehind], fun hne => absurd rfl hne⟩
  | cons c cs ih =>
    rw [readDigits] at h
    cases hd : digit? base c with
    | none =>
      rw [hd] at h
      cases h
    | some d =>
      simp only [hd] at h
      split at h
      · rename_i hlt
        obtain ⟨ds, hds, hm, hbound⟩ := ih h
        refine ⟨d :: ds, .cons ((digit?_eq_some_iff hbase).1 hd) hds,
          hm.trans (valueBehind_cons n d ds).symm, fun _ => ?_⟩
        -- the bound is checked behind each digit, so what counts is the check behind the last
        cases cs with
        | nil =>
          cases h
          exact hlt
        | cons c' cs => exact hbound (List.cons_ne_nil c' cs)
      · cases h

theorem readDigits_of_digits (hpos : 0 < base) (hbase : base ≤ 16) {ds : List Nat}
    (hds : List.Forall₂ (IsDigit base) cs ds) (hbound : valueBehind base n ds < bound) :
    readDigits base bound n cs = .ok (valueBehind base n ds) := by
  induction hds generalizing n with
  | nil => simp [readDigits, valueBehind]
  | @cons c d cs ds hd hds ih =>
    rw [valueBehind_cons] at hbound ⊢
    have hlt : n * base + d < bound := Nat.lt_of_le_of_lt (le_valueBehind hpos _ ds) hbound
    rw [readDigits, (digit?_eq_some_iff hbase).2 hd]
    exact (if_pos hlt).trans (ih hbound)

/-- One or more digits read as the number that they spell, if that is small enough. -/
theorem readDigits_eq_ok_iff (hpos : 0 < base) (hbase : base ≤ 16) (hne : cs ≠ []) :
    readDigits base bound 0 cs = .ok n ↔ Spells base cs n ∧ n < bound := by
  constructor
  · intro h
    obtain ⟨ds, hds, hn, hbound⟩ := exists_digits_of_readDigits hbase h
    exact ⟨⟨hne, ds, hds, hn.trans (valueBehind_zero ds)⟩, hbound hne⟩
  · rintro ⟨⟨-, ds, hds, rfl⟩, hbound⟩
    rw [← valueBehind_zero] at hbound ⊢
    exact readDigits_of_digits hpos hbase hds hbound

theorem Spells.isBlank_eq_false (h : Spells base cs n) (hbase : base ≤ 16) :
    ∀ c ∈ cs, isBlank c = false := by
  obtain ⟨-, ds, hds, -⟩ := h
  induction hds with
  | nil => exact fun c hc => absurd hc List.not_mem_nil
  | cons hd _ ih => exact List.forall_mem_cons.2 ⟨hd.isBlank_eq_false hbase, ih⟩

theorem lt_of_mem_digits {ds : List Nat} (hds : List.Forall₂ (IsDigit base) cs ds) :
    ∀ d ∈ ds, d < base := by
  induction hds with
  | nil => exact fun d hd => absurd hd List.not_mem_nil
  | cons hd _ ih => exact List.forall_mem_cons.2 ⟨hd.1, ih⟩

theorem Spells.lt_pow (h : Spells base cs n) (hone : 1 < base) : n < base ^ cs.length := by
  obtain ⟨-, ds, hds, rfl⟩ := h
  rw [hds.length_eq, ← List.length_reverse]
  apply Nat.ofDigits_lt_base_pow_length hone
  exact fun d hd => lt_of_mem_digits hds d (List.mem_reverse.1 hd)

/-- A number is spelled by its digits, with any number of zeros in front. -/
theorem spells_toDigits (hone : 1 < base) (hbase : base ≤ 16) (zeros n : Nat) :
    Spells base (List.replicate zeros '0' ++ Nat.toDigits base n) n := by
  have hread : readDigits base (n + 1) 0 (List.replicate zeros '0' ++ Nat.toDigits base n) =
      .ok n := by
    rw [readDigits_zeros (by omega) hbase (Nat.succ_pos n)]
    exact readDigits_toDigits hone hbase (Nat.lt_succ_self n)
  have hne : List.replicate zeros '0' ++ Nat.toDigits base n ≠ [] :=
    List.append_ne_nil_of_right_ne_nil _ Nat.toDigits_ne_nil
  exact ((readDigits_eq_ok_iff (by omega) hbase hne).1 hread).1

theorem Spells.of_toLower (h : Spells base (cs.map Char.toLower) n) : Spells base cs n := by
  obtain ⟨hne, ds, hds, hn⟩ := h
  rw [List.forall₂_map_left_iff] at hds
  exact ⟨mt (congrArg (List.map Char.toLower)) hne, ds, hds.imp fun _ _ hd => hd.of_toLower, hn⟩

theorem toList_padEnd (width : Nat) (text : String) :
    (padEnd width text).toList =
      text.toList ++ List.replicate (width - text.length) ' ' := by
  rw [padEnd, String.toList_append, String.toList_ofList]

theorem toList_hexPadded (width n : Nat) :
    (hexPadded width n).toList =
      List.replicate (width - (Nat.toDigits 16 n).length) '0' ++ Nat.toDigits 16 n := by
  rw [hexPadded, String.toList_ofList, padStart]

theorem le_length_hexPadded (width n : Nat) : width ≤ (hexPadded width n).toList.length := by
  rw [toList_hexPadded, List.length_append, List.length_replicate]
  omega

theorem length_hexPadded {width n : Nat} (hwidth : 0 < width) (hn : n < 16 ^ width) :
    (hexPadded width n).toList.length = width := by
  have hdigits := (Nat.length_toDigits_le_iff (b := 16) (by decide) hwidth).2 hn
  rw [toList_hexPadded, List.length_append, List.length_replicate]
  omega

theorem spells_hexPadded (width n : Nat) : Spells 16 (hexPadded width n).toList n :=
  toList_hexPadded width n ▸ spells_toDigits (by decide) (Nat.le_refl 16) _ n

theorem spells_hex (n : Nat) : Spells 16 (hex n).toList n := by
  rw [hex, String.toList_ofList]
  exact spells_toDigits (by decide) (Nat.le_refl 16) 0 n

theorem spells_toString (n : Nat) : Spells 10 (toString n).toList n := by
  rw [Nat.toString_eq_repr, Nat.repr, String.toList_ofList]
  exact spells_toDigits (by decide) (by decide) 0 n

/-- `cs` are the two digits of a byte. -/
structure SpellsByte (cs : List Char) (b : UInt8) : Prop where
  length_eq : cs.length = 2
  spells : Spells 16 cs b.toNat

theorem spellsByte_hexByte (b : UInt8) : SpellsByte (hexByte b).toList b where
  length_eq := length_hexPadded (by decide) b.toNat_lt
  spells := spells_hexPadded 2 b.toNat

theorem not_spells_plus (hbase : base ≤ 16) : ¬ Spells base ('+' :: cs) n := by
  rintro ⟨-, _, hds, -⟩
  cases hds with
  | cons hd _ => exact not_isDigit_plus hbase hd

theorem readUnsigned_eq_ok_iff (hpos : 0 < base) (hbase : base ≤ 16) :
    readUnsigned base bound cs = .ok n ↔
      ∃ sign digits, cs = sign ++ digits ∧ (sign = [] ∨ sign = ['+']) ∧ Spells base digits n ∧
        n < bound := by
  constructor
  · intro h
    unfold readUnsigned at h
    split at h
    · cases h
    · cases h
    · rename_i digits hne
      exact ⟨['+'], digits, rfl, .inr rfl, (readDigits_eq_ok_iff hpos hbase hne).1 h⟩
    · rename_i hne _ _
      exact ⟨[], cs, rfl, .inl rfl, (readDigits_eq_ok_iff hpos hbase hne).1 h⟩
  · rintro ⟨sign, digits, rfl, hsign, hdigits, hbound⟩
    have hread := (readDigits_eq_ok_iff hpos hbase hdigits.1).2 ⟨hdigits, hbound⟩
    rcases hsign with rfl | rfl
    · rw [List.nil_append]
      unfold readUnsigned
      split
      · exact absurd rfl hdigits.1
      · exact absurd hdigits (not_spells_plus hbase)
      · exact absurd hdigits (not_spells_plus hbase)
      · exact hread
    · rw [List.singleton_append]
      cases digits with
      | nil => exact absurd rfl hdigits.1
      | cons c digits => exact hread

end Digits

section Blanks

variable {cs core : List Char}

/-- `core` with blanks around it. -/
def IsWithinBlanks (cs core : List Char) : Prop :=
  ∃ before after, cs = before ++ core ++ after ∧ (∀ c ∈ before, isBlank c = true) ∧
    ∀ c ∈ after, isBlank c = true

theorem isWithinBlanks_self : IsWithinBlanks cs cs :=
  ⟨[], [], by simp, by simp, by simp⟩

theorem exists_blanks_trimStart (cs : List Char) :
    ∃ before, cs = before ++ trimStart cs ∧ ∀ c ∈ before, isBlank c = true :=
  ⟨cs.takeWhile isBlank, List.takeWhile_append_dropWhile.symm, fun _ => List.mem_takeWhile_imp⟩

theorem exists_blanks_trimEnd (cs : List Char) :
    ∃ after, cs = trimEnd cs ++ after ∧ ∀ c ∈ after, isBlank c = true := by
  obtain ⟨before, hcs, hbefore⟩ := exists_blanks_trimStart cs.reverse
  refine ⟨before.reverse, ?_, fun c hc => hbefore c (List.mem_reverse.1 hc)⟩
  rw [← List.reverse_inj, List.reverse_append, List.reverse_reverse, trimEnd, List.reverse_reverse]
  exact hcs

theorem isBlank_getLast?_trimEnd (cs : List Char) :
    ∀ c ∈ (trimEnd cs).getLast?, isBlank c = false := by
  intro c hc
  have hhead := List.head?_dropWhile_not isBlank cs.reverse
  rw [trimEnd, List.getLast?_reverse] at hc
  rw [hc] at hhead
  simpa using hhead

theorem trim_isWithinBlanks (cs : List Char) : IsWithinBlanks cs (trim cs) := by
  obtain ⟨before, hstart, hbefore⟩ := exists_blanks_trimStart cs
  obtain ⟨after, hend, hafter⟩ := exists_blanks_trimEnd (trimStart cs)
  refine ⟨before, after, ?_, hbefore, hafter⟩
  rw [List.append_assoc]
  exact hstart.trans (congrArg (before ++ ·) hend)

theorem trimStart_append {before : List Char} (hbefore : ∀ c ∈ before, isBlank c = true)
    (hne : core ≠ []) (hcore : ∀ c ∈ core, isBlank c = false) (after : List Char) :
    trimStart (before ++ (core ++ after)) = core ++ after := by
  rw [trimStart, List.dropWhile_append_of_pos hbefore]
  cases core with
  | nil => exact absurd rfl hne
  | cons c core =>
    apply List.dropWhile_cons_of_neg
    rw [hcore c List.mem_cons_self]
    exact Bool.false_ne_true

theorem IsWithinBlanks.trim_eq (h : IsWithinBlanks cs core) (hne : core ≠ [])
    (hcore : ∀ c ∈ core, isBlank c = false) : trim cs = core := by
  obtain ⟨before, after, rfl, hbefore, hafter⟩ := h
  have hstart : trimStart (before ++ core ++ after) = core ++ after := by
    rw [List.append_assoc, trimStart_append hbefore hne hcore]
  -- what is behind is in front when read backwards
  have hback : trimStart (after.reverse ++ (core.reverse ++ [])) = core.reverse ++ [] :=
    trimStart_append (fun c hc => hafter c (List.mem_reverse.1 hc))
      (mt List.reverse_eq_nil_iff.1 hne) (fun c hc => hcore c (List.mem_reverse.1 hc)) []
  rw [List.append_nil, ← List.reverse_append] at hback
  rw [trim, hstart]
  exact (congrArg List.reverse hback).trans (List.reverse_reverse core)

theorem trim_iff_exists_isWithinBlanks {P : List Char → Prop} (hne : ∀ core, P core → core ≠ [])
    (hblank : ∀ core, P core → ∀ c ∈ core, isBlank c = false) :
    P (trim cs) ↔ ∃ core, IsWithinBlanks cs core ∧ P core := by
  constructor
  · intro h
    exact ⟨trim cs, trim_isWithinBlanks cs, h⟩
  · rintro ⟨core, hwithin, h⟩
    rwa [hwithin.trim_eq (hne core h) (hblank core h)]

end Blanks
end Disassembly.Text
