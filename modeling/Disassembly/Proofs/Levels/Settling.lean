import Disassembly.Proofs.Levels.Refinement

/-! # The virtual line of an instruction

An instruction line is pushed down by the labels before it. Going on from it by the labels passed so
far ends on the first line that has just as many labels through it as it is further down, and this
line is the instruction's own: no label is on it, for the line before a label would have settled
first.
-/

namespace Disassembly
namespace Levels

variable {s : Levels} {real line : Nat}

theorem labelsThrough_eq (s : Levels) (line : Nat) :
    s.labelsThrough line = s.root.contents.countP (·.1 < line + 1) := by
  simp only [labelsThrough, Level.count_eq, Nat.lt_succ_iff]

/-- Further down there are no fewer labels. -/
theorem labelsThrough_mono (s : Levels) {line line' : Nat} (h : line ≤ line') :
    s.labelsThrough line ≤ s.labelsThrough line' := by
  rw [labelsThrough_eq, labelsThrough_eq]
  apply List.countP_mono_left
  intro e _ he
  simp only [decide_eq_true_eq] at he ⊢
  omega

theorem labelsThrough_le (s : Levels) (line : Nat) : s.labelsThrough line ≤ s.labelCount := by
  rw [labelsThrough_eq, labelCount, Level.count_eq]
  apply List.countP_mono_left
  intros
  rfl

/-- `line` is the first line from `real` on that is behind `real` by the labels through it. -/
structure Settled (s : Levels) (real line : Nat) : Prop where
  line_eq : real + s.labelsThrough line = line
  first : ∀ k, real ≤ k → k < line → k < real + s.labelsThrough k

/-- Settling ends on such a line. No line before the one that has been reached is one, and each move
uses up a label. -/
theorem settle_settled {fuel : Nat} (hreal : real ≤ line) (hle : line ≤ real + s.labelsThrough line)
    (hfirst : ∀ k, real ≤ k → k < line → k < real + s.labelsThrough k)
    (hfuel : s.labelCount ≤ fuel + (line - real)) : s.Settled real (s.settle real fuel line) := by
  -- no line before `line` is settled, and the labels not yet passed are no more than the fuel
  induction fuel generalizing line with
  | zero =>
    have hall := s.labelsThrough_le line
    rw [settle]
    exact ⟨by omega, hfirst⟩
  | succ fuel ih =>
    rw [settle]
    by_cases hsame : real + s.labelsThrough line = line
    · rw [if_pos hsame]
      exact ⟨hsame, hfirst⟩
    · rw [if_neg hsame]
      have hnext : line < real + s.labelsThrough line := by omega
      apply ih
      · omega
      · have hmono := s.labelsThrough_mono (Nat.le_of_lt hnext)
        omega
      · intro k hk hlt
        by_cases hbefore : k < line
        · exact hfirst k hk hbefore
        · have hmono := s.labelsThrough_mono (Nat.le_of_not_lt hbefore)
          omega
      · omega

theorem lineOfReal_settled (s : Levels) (real : Nat) : s.Settled real (s.lineOfReal real) := by
  apply settle_settled (Nat.le_refl real) (Nat.le_add_right _ _)
  · intro k hk hlt
    omega
  · omega

/-- No label is on the line, and those before it are as many as it is behind `real`. -/
theorem Settled.entry_eq (h : s.Settled real line) (hs : s.Sound) :
    entryOf s.root.contents line = .instruction real := by
  obtain ⟨hline, hfirst⟩ := h
  have hsucc := hs.distinct.below_succ line
  rw [labelsThrough_eq] at hline
  cases hcontains : s.root.contents.contains line with
  | true =>
    -- one line up there is one label less, so that line is settled as well
    rw [hcontains, if_pos rfl] at hsucc
    have hbefore := hfirst (line - 1) (by omega) (by omega)
    rw [labelsThrough_eq, Nat.sub_add_cancel (by omega)] at hbefore
    omega
  | false =>
    rw [hcontains, if_neg Bool.false_ne_true] at hsucc
    rw [NatMap.contains, Option.isSome_eq_false_iff, Option.isNone_iff_eq_none] at hcontains
    rw [entryOf, hcontains]
    apply congrArg Resolved.instruction
    omega

theorem Models.lineOfReal_entry {n : Nat} {flat : List Resolved} (h : s.Models n flat)
    (hreal : real < n) :
    s.lineOfReal real < s.size ∧ entryOf s.root.contents (s.lineOfReal real) = .instruction real := by
  have hsettled := s.lineOfReal_settled real
  refine ⟨?_, hsettled.entry_eq h.sound⟩
  have hall := s.labelsThrough_le (s.lineOfReal real)
  have hline := hsettled.line_eq
  have hsize := h.size_eq
  omega

end Levels
end Disassembly
