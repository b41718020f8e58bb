import Disassembly.Proofs.Levels.Innermost
import Disassembly.Proofs.Levels.Layout

/-! # Resolving lines

What the running counts say about a line is known from where the labels are, and one step forward or
back in the same level keeps it true. So a line resolves to what is laid out there, whatever was
resolved before.
-/

namespace Disassembly

namespace Running

/-- The counts are right for their line, in a level that begins at `start`. -/
structure Tells (r : Running) (labels : NatMap Label) (start : Nat) : Prop where
  textPassed : labels.countP (·.1 < start) + r.textPassed = labels.countP (·.1 < r.line + 1)
  passed : start + r.textPassed + r.codePassed = r.line + 1
  realBase : r.realBase + labels.countP (·.1 < start) = start

variable {l m : Level} {line : Nat} {path : List Nat}

/-- Labels of the innermost level through its line are counted there. -/
theorem count_through (h : l.IsInnermost m line) :
    (m.count fun k => m.start ≤ k && k ≤ line) =
      l.contents.countP fun e => m.start ≤ e.1 && e.1 ≤ line := by
  refine h.count_eq fun k hk => ?_
  rw [Bool.and_eq_true, decide_eq_true_eq, decide_eq_true_eq] at hk
  exact ⟨hk.1, Nat.lt_of_le_of_lt hk.2 h.contains.2⟩

/-- What counting anew subtracts is there to be subtracted. -/
theorem count_through_le (h : l.IsInnermost m line) (hlabels : l.contents.Distinct) :
    (m.count fun k => m.start ≤ k && k ≤ line) ≤ line - m.start + 1 := by
  have hle := h.contains.1
  have hstart : m.start ≤ line + 1 := Nat.le_succ_of_le hle
  have hsum := l.contents.below_add_between hstart
  have hbelow := (hlabels.below_le_below hstart).2
  rw [count_through h]
  omega

theorem count_before_le (hlabels : l.contents.Distinct) (line : Nat) :
    l.count (· < line) ≤ line := by
  rw [Level.count_eq]
  exact hlabels.below_le line

theorem fresh_tells (h : l.IsInnermost m line) (hlabels : l.contents.Distinct) :
    (fresh l m path line).Tells l.contents m.start := by
  have hstart := h.contains.1
  have htext := count_through_le h hlabels
  have hbase := count_before_le hlabels m.start
  have hsum := l.contents.below_add_between (Nat.le_succ_of_le hstart)
  refine ⟨?_, ?_, ?_⟩
  · rw [← count_through h] at hsum
    exact hsum
  · simp only [fresh]
    omega
  · simp only [fresh]
    rw [Level.count_eq] at hbase ⊢
    omega

variable {r : Running} {labels : NatMap Label}

@[simp] theorem forward_path (r : Running) (m : Level) : (r.forward m).path = r.path := by
  rw [Running.forward]
  split <;> rfl

@[simp] theorem forward_line (r : Running) (m : Level) : (r.forward m).line = r.line + 1 := by
  rw [Running.forward]
  split <;> rfl

@[simp] theorem backward_path (r : Running) (m : Level) : (r.backward m).path = r.path := by
  rw [Running.backward]
  split <;> rfl

@[simp] theorem backward_line (r : Running) (m : Level) : (r.backward m).line = r.line - 1 := by
  rw [Running.backward]
  split <;> rfl

theorem Tells.forward (h : r.Tells labels m.start) (hlabels : labels.Distinct)
    (htext : isText m (r.line + 1) = labels.contains (r.line + 1)) :
    (r.forward m).Tells labels m.start := by
  obtain ⟨htextPassed, hpassed, hbase⟩ := h
  have hsucc := hlabels.below_succ (r.line + 1)
  simp only [Running.forward, htext]
  cases hcontains : labels.contains (r.line + 1) with
  | true =>
    rw [hcontains, if_pos rfl] at hsucc
    exact ⟨by simp only [if_pos]; omega, by simp only [if_pos]; omega, hbase⟩
  | false =>
    rw [hcontains, if_neg Bool.false_ne_true] at hsucc
    exact ⟨by simp only [Bool.false_eq_true, if_false]; omega,
      by simp only [Bool.false_eq_true, if_false]; omega, hbase⟩

/-- What going back subtracts is there to be subtracted. -/
theorem Tells.backward_bound (h : r.Tells labels m.start) (hlabels : labels.Distinct)
    (hstart : m.start < r.line) (htext : isText m r.line = labels.contains r.line) :
    if isText m r.line then 1 ≤ r.textPassed else 1 ≤ r.codePassed := by
  obtain ⟨htextPassed, hpassed, -⟩ := h
  have hsucc := hlabels.below_succ r.line
  have hbelow := hlabels.below_le_below (Nat.le_of_lt hstart)
  rw [htext]
  cases hcontains : labels.contains r.line with
  | true =>
    rw [hcontains, if_pos rfl] at hsucc
    rw [if_pos rfl]
    omega
  | false =>
    rw [hcontains, if_neg Bool.false_ne_true] at hsucc
    rw [if_neg Bool.false_ne_true]
    omega

theorem Tells.backward (h : r.Tells labels m.start) (hlabels : labels.Distinct)
    (hstart : m.start < r.line) (htext : isText m r.line = labels.contains r.line) :
    (r.backward m).Tells labels m.start := by
  have hbound := h.backward_bound hlabels hstart htext
  obtain ⟨htextPassed, hpassed, hbase⟩ := h
  have hsucc := hlabels.below_succ r.line
  have hline : r.line - 1 + 1 = r.line := by omega
  simp only [Running.backward, htext] at hbound ⊢
  cases hcontains : labels.contains r.line with
  | true =>
    rw [hcontains, if_pos rfl] at hsucc hbound
    rw [if_pos rfl]
    exact ⟨by rw [hline]; dsimp only; omega, by dsimp only; omega, hbase⟩
  | false =>
    rw [hcontains, if_neg Bool.false_ne_true] at hsucc hbound
    rw [if_neg Bool.false_ne_true]
    exact ⟨by rw [hline]; dsimp only; omega, by dsimp only; omega, hbase⟩

/-- At an instruction the counts say its number. -/
theorem Tells.real_eq {start : Nat} (h : r.Tells labels start) (hlabels : labels.Distinct)
    (hnone : labels.get? r.line = none) :
    1 ≤ r.realBase + r.codePassed ∧ r.real = r.line - labels.countP (·.1 < r.line) := by
  obtain ⟨htextPassed, hpassed, hbase⟩ := h
  have hsucc := hlabels.below_succ r.line
  have hle := hlabels.below_le r.line
  rw [NatMap.contains, hnone, if_neg (by simp)] at hsucc
  rw [real]
  omega

end Running

namespace Levels

variable {s : Levels} {line : Nat}

/-- The levels nest, no two labels share a line, and what is kept about the line that was resolved
last is right. -/
structure Sound (s : Levels) : Prop where
  start_eq : s.root.start = 0
  nested : s.root.Nested
  distinct : s.root.contents.Distinct
  running : ∀ r ∈ s.running, r.line < s.size ∧ r.path = (s.root.locate r.line).1 ∧
    r.Tells s.root.contents (s.root.locate r.line).2.start

def lines (s : Levels) : List Resolved :=
  layout s.root.contents s.size

theorem Sound.isInnermost (hs : s.Sound) (hline : line < s.size) :
    s.root.IsInnermost (s.root.locate line).2 line :=
  Level.locate_isInnermost hs.nested ⟨by rw [hs.start_eq]; exact Nat.zero_le line, hline⟩

/-- Lines with the same path are in the same level. -/
theorem Sound.locate_eq (hs : s.Sound) {k : Nat}
    (hpath : (s.root.locate k).1 = (s.root.locate line).1) :
    (s.root.locate k).2 = (s.root.locate line).2 := by
  have hk := @Level.descend_locate k _ hs.nested
  rw [hpath, Level.descend_locate hs.nested] at hk
  exact (Option.some.inj hk).symm

theorem Sound.path_leads (hs : s.Sound) : ∃ level, s.root.descend s.path = some level := by
  rw [path]
  cases hrunning : s.running with
  | none => exact ⟨s.root, rfl⟩
  | some r =>
    refine ⟨(s.root.locate r.line).2, ?_⟩
    rw [Option.elim_some, (hs.running r hrunning).2.1]
    exact Level.descend_locate hs.nested

theorem Sound.isText_eq (hs : s.Sound) (hline : line < s.size) :
    Running.isText (s.root.locate line).2 line = s.root.contents.contains line := by
  rw [Running.isText, NatMap.contains, (hs.isInnermost hline).get?_eq, NatMap.contains]

def moved (s : Levels) (line : Nat) : Running :=
  Running.moveTo s.root (s.root.locate line).2 (s.root.locate line).1 line s.running

theorem Sound.moved_tells (hs : s.Sound) (hline : line < s.size) :
    (s.moved line).path = (s.root.locate line).1 ∧ (s.moved line).line = line ∧
      (s.moved line).Tells s.root.contents (s.root.locate line).2.start := by
  have hfresh := @Running.fresh_tells s.root _ line (s.root.locate line).1
    (hs.isInnermost hline) hs.distinct
  rw [moved]
  cases hrunning : s.running with
  | none => exact ⟨rfl, rfl, hfresh⟩
  | some r =>
    obtain ⟨hlast, hpath, htells⟩ := hs.running r hrunning
    rw [Running.moveTo]
    -- counts of another level are of no use here
    by_cases hchanged : r.path ≠ (s.root.locate line).1
    · rw [if_pos hchanged]
      exact ⟨rfl, rfl, hfresh⟩
    · have hsame : r.path = (s.root.locate line).1 := Decidable.not_not.1 hchanged
      rw [if_neg hchanged]
      rw [hs.locate_eq (hpath.symm.trans hsame)] at htells
      split
      · rename_i hnext
        subst hnext
        exact ⟨by rw [Running.forward_path, hsame], Running.forward_line _ _,
          htells.forward hs.distinct (hs.isText_eq hline)⟩
      · split
        · rename_i hback
          refine ⟨by rw [Running.backward_path, hsame], by rw [Running.backward_line]; omega, ?_⟩
          refine htells.backward hs.distinct ?_ ?_
          · have hstart := (hs.isInnermost hline).contains.1
            omega
          · rw [← hs.locate_eq (hpath.symm.trans hsame)]
            exact hs.isText_eq hlast
        · split
          · rename_i hstay
            exact ⟨hsame, hstay.symm, htells⟩
          · exact ⟨rfl, rfl, hfresh⟩

/-- What resolving and peeking subtract is there to be subtracted. -/
structure NoUnderflow (s : Levels) (line : Nat) : Prop where
  start_le : (s.root.locate line).2.start ≤ line
  text_le : ((s.root.locate line).2.count fun k =>
    (s.root.locate line).2.start ≤ k && k ≤ line) ≤ line - (s.root.locate line).2.start + 1
  base_le : s.root.count (· < (s.root.locate line).2.start) ≤ (s.root.locate line).2.start
  backward : ∀ r ∈ s.running, r.path = (s.root.locate line).1 → line + 1 = r.line →
    if Running.isText (s.root.locate line).2 r.line then 1 ≤ r.textPassed else 1 ≤ r.codePassed
  real : (s.root.locate line).2.labels.get? line = none →
    1 ≤ (s.moved line).realBase + (s.moved line).codePassed
  peek : s.labelsBefore line ≤ line

theorem Sound.noUnderflow (hs : s.Sound) (hline : line < s.size) : s.NoUnderflow line := by
  have hinnermost := hs.isInnermost hline
  refine {
    start_le := hinnermost.contains.1
    text_le := Running.count_through_le hinnermost hs.distinct
    base_le := Running.count_before_le hs.distinct _
    backward := fun r hr hsame hback => ?_
    real := fun hnone => ?_
    peek := Running.count_before_le hs.distinct line }
  · obtain ⟨hlast, hpath, htells⟩ := hs.running r hr
    have hlocate := hs.locate_eq (hpath.symm.trans hsame)
    have hstart := hinnermost.contains.1
    rw [hlocate] at htells
    refine htells.backward_bound hs.distinct (by omega) ?_
    rw [← hlocate]
    exact hs.isText_eq hlast
  · obtain ⟨-, hmoved, htells⟩ := hs.moved_tells hline
    rw [hinnermost.get?_eq, ← hmoved] at hnone
    exact (htells.real_eq hs.distinct hnone).1

theorem Sound.resolve_eq (hs : s.Sound) (hline : line < s.size) :
    s.resolve line = (.ok (match (s.root.locate line).2.labels.get? line with
      | some label => .label label
      | none => .instruction (s.moved line).real), { s with running := some (s.moved line) }) := by
  rw [Levels.resolve, if_neg (Nat.not_le.2 hline), hs.nested.walk_eq]
  rfl

/-- Resolving a line gives what is laid out there, and keeps the counts right. -/
theorem Sound.resolve (hs : s.Sound) (hline : line < s.size) :
    (s.resolve line).1 = .ok (entryOf s.root.contents line) ∧ (s.resolve line).2.Sound := by
  obtain ⟨hpath, hmoved, htells⟩ := hs.moved_tells hline
  rw [hs.resolve_eq hline, (hs.isInnermost hline).get?_eq]
  constructor
  · rw [entryOf]
    cases hget : s.root.contents.get? line with
    | some label => rfl
    | none =>
      have hreal := (htells.real_eq hs.distinct (by rw [hmoved]; exact hget)).2
      rw [hmoved] at hreal
      simp only [hreal]
  · refine ⟨hs.start_eq, hs.nested, hs.distinct, fun r hr => ?_⟩
    obtain rfl : s.moved line = r := Option.some.inj hr
    rw [hmoved]
    exact ⟨hline, hpath, htells⟩

theorem Sound.peek (hs : s.Sound) (hline : line < s.size) :
    s.peek line = .ok (entryOf s.root.contents line) := by
  rw [Levels.peek, if_neg (Nat.not_le.2 hline), (hs.isInnermost hline).get?_eq, entryOf,
    labelsBefore, Level.count_eq]
  cases s.root.contents.get? line <;> rfl

end Levels
end Disassembly
