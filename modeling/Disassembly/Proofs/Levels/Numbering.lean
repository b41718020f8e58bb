import Disassembly.Proofs.Levels.Settling
import Mathlib.Order.Monotone.Basic

/-! # Instruction lines and virtual lines

An instruction line settles on one virtual line, and that line resolves back to it. Behind the last
instruction, lines settle behind the last label. The loop that settles a line ends although nothing
bounds it, and no sum on the way leaves the words that it is made of.
-/

namespace Disassembly
namespace Levels

open Text (halfWordBound)

variable {s : Levels} {real line : Nat}

/-- The loop that settles instruction line `real`, when it has come to `line`, ends on `last`, and
none of its sums is too large for a word. -/
inductive SettlesOn (s : Levels) (real : Nat) : (line last : Nat) → Prop
  | stay {line : Nat} (hfits : real + s.labelsThrough line < halfWordBound)
      (hsame : real + s.labelsThrough line = line) : SettlesOn s real line line
  | move {line last : Nat} (hfits : real + s.labelsThrough line < halfWordBound)
      (hother : real + s.labelsThrough line ≠ line)
      (hrest : SettlesOn s real (real + s.labelsThrough line) last) : SettlesOn s real line last

/-- A loop that has not passed its end does not run out of fuel, as each move uses up a label. -/
theorem settlesOn_settle (hfits : real + s.labelCount < halfWordBound) {fuel : Nat}
    (hreal : real ≤ line) (hle : line ≤ real + s.labelsThrough line)
    (hfuel : s.labelCount ≤ fuel + (line - real)) :
    s.SettlesOn real line (s.settle real fuel line) := by
  induction fuel generalizing line with
  | zero =>
    have hthrough := s.labelsThrough_le line
    exact .stay (by omega) (by omega)
  | succ fuel ih =>
    have hthrough := s.labelsThrough_le line
    rw [settle]
    by_cases hsame : real + s.labelsThrough line = line
    · rw [if_pos hsame]
      exact .stay (by omega) hsame
    · rw [if_neg hsame]
      have hmono := s.labelsThrough_mono hle
      apply SettlesOn.move (by omega) hsame
      exact ih (Nat.le_add_right _ _) (by omega) (by omega)

theorem Settled.unique {line' : Nat} (h : s.Settled real line) (h' : s.Settled real line') :
    line = line' := by
  have hle := h.line_eq
  have hle' := h'.line_eq
  rcases Nat.lt_trichotomy line line' with hlt | heq | hlt
  · have hbefore := h'.first line (by omega) hlt
    omega
  · exact heq
  · have hbefore := h.first line' (by omega) hlt
    omega

/-- A line with an instruction is where that instruction settles: on the way there are not enough
lines to hold the labels that are missing. -/
theorem Sound.settled_of_entry (hs : s.Sound)
    (hentry : entryOf s.root.contents line = .instruction real) : s.Settled real line := by
  have hnone : s.root.contents.get? line = none := by
    cases hget : s.root.contents.get? line with
    | none => rfl
    | some label =>
      rw [entryOf, hget] at hentry
      cases hentry
  have hcontains : s.root.contents.contains line = false := by
    rw [NatMap.contains, hnone]
    rfl
  have hsucc := hs.distinct.below_succ line
  have hbelow := hs.distinct.below_le line
  rw [hcontains, if_neg Bool.false_ne_true] at hsucc
  rw [entryOf, hnone, Resolved.instruction.injEq] at hentry
  constructor
  · rw [labelsThrough_eq]
    omega
  · intro k hk hlt
    have hle : k + 1 ≤ line := hlt
    have hbetween := (hs.distinct.below_le_below hle).2
    rw [labelsThrough_eq]
    omega

theorem Sound.labelsThrough_of_le (hs : s.Sound) (hline : s.size ≤ line + 1) :
    s.labelsThrough line = s.labelCount := by
  rw [labelsThrough_eq, labelCount, Level.count_eq]
  apply List.countP_congr
  intro e he
  have hmem := (Level.mem_contents hs.nested he).2
  simp only [decide_eq_true_eq, iff_true]
  exact Nat.lt_of_lt_of_le hmem hline

variable {n : Nat} {flat : List Resolved}

/-- Lines behind the last instruction settle behind the last label. -/
theorem Models.lineOfReal_of_le (h : s.Models n flat) (hreal : n ≤ real) :
    s.lineOfReal real = real + s.labelCount := by
  have hline := (s.lineOfReal_settled real).line_eq
  rw [← hline]
  apply congrArg (real + ·)
  apply h.sound.labelsThrough_of_le
  apply Nat.le_of_not_lt
  intro hlt
  -- there are too few lines behind for the labels that are missing
  have hbehind := (h.sound.distinct.below_le_below (Nat.le_of_lt hlt)).2
  have hlast : s.size ≤ s.size - 1 + 1 := by omega
  have hall := h.sound.labelsThrough_of_le hlast
  rw [labelsThrough_eq, Nat.sub_add_cancel (by omega)] at hall
  rw [labelsThrough_eq] at hline
  have hsize := h.size_eq
  omega

/-- A line resolves to an instruction exactly if the instruction settles on it. -/
theorem Models.peek_eq_iff (h : s.Models n flat) :
    s.peek line = .ok (.instruction real) ↔ real < n ∧ s.lineOfReal real = line := by
  constructor
  · intro hpeek
    have hline : line < s.size := by
      apply Nat.lt_of_not_le
      intro hle
      rw [peek, if_pos hle] at hpeek
      cases hpeek
    have hentry := Except.ok.inj ((h.sound.peek hline).symm.trans hpeek)
    exact ⟨h.lt_of_entry hline hentry,
      (s.lineOfReal_settled real).unique (h.sound.settled_of_entry hentry)⟩
  · rintro ⟨hreal, rfl⟩
    obtain ⟨hline, hentry⟩ := h.lineOfReal_entry hreal
    rw [h.sound.peek hline, hentry]

/-- Further instruction lines settle further down. -/
theorem lineOfReal_strictMono (s : Levels) : StrictMono s.lineOfReal := by
  intro real real' hlt
  have hsettled := s.lineOfReal_settled real
  have hline := hsettled.line_eq
  have hline' := (s.lineOfReal_settled real').line_eq
  rcases Nat.lt_trichotomy (s.lineOfReal real) (s.lineOfReal real') with hless | heq | hmore
  · exact hless
  · rw [← heq] at hline'
    omega
  · have hbefore := hsettled.first (s.lineOfReal real') (by omega) hmore
    omega

/-- No instruction line settles on a label. -/
theorem Models.peek_lineOfReal_ne (h : s.Models n flat) (real : Nat) (label : Label) :
    s.peek (s.lineOfReal real) ≠ .ok (.label label) := by
  intro hpeek
  by_cases hreal : real < n
  · rw [h.peek_eq_iff.2 ⟨hreal, rfl⟩] at hpeek
    cases hpeek
  · have hsize := h.size_eq
    rw [h.lineOfReal_of_le (Nat.le_of_not_lt hreal), peek, if_pos (by omega)] at hpeek
    cases hpeek

/-- The levels of a zone of `n` instructions number its lines: settling gives each instruction its
own line, those behind the last one the lines behind the last label, and is undone by peeking. -/
structure NumbersLines (s : Levels) (n : Nat) : Prop where
  ends : ∀ real, real + s.labelCount < halfWordBound → s.SettlesOn real real (s.lineOfReal real)
  lt_size : ∀ real, real < n → s.lineOfReal real < s.size
  peek_eq_iff : ∀ line real, s.peek line = .ok (.instruction real) ↔
    real < n ∧ s.lineOfReal real = line
  behind : ∀ real, n ≤ real → s.lineOfReal real = real + s.labelCount
  strictMono : StrictMono s.lineOfReal
  not_label : ∀ real label, s.peek (s.lineOfReal real) ≠ .ok (.label label)

theorem Models.numbersLines (h : s.Models n flat) : s.NumbersLines n where
  ends real hfits :=
    settlesOn_settle hfits (Nat.le_refl real) (Nat.le_add_right _ _) (Nat.le_add_right _ _)
  lt_size _ hreal := (h.lineOfReal_entry hreal).1
  peek_eq_iff _ _ := h.peek_eq_iff
  behind _ hreal := h.lineOfReal_of_le hreal
  strictMono := s.lineOfReal_strictMono
  not_label real label := h.peek_lineOfReal_ne real label

/-- After any requests the levels of a zone number its lines. -/
theorem run_numbersLines (n : Nat) (requests : List Request) :
    (requests.foldl perform (start n)).NumbersLines n :=
  ((start_models n).run requests).numbersLines

end Levels
end Disassembly
