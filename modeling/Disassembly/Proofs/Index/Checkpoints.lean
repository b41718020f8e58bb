import Disassembly.Proofs.Index.Reference

/-! # Closest checkpoints

The checkpoints of an index are instructions of the zone with their lines, and they increase in both.
So the checkpoints in order fall into those up to a line and those behind it, the closest one is the
last of the former, and it is the same for all lines up to the next.
-/

namespace Disassembly

theorem advanceWhile_split {α : Type} (p : α → Bool) (a : α) (as : List α) :
    ∃ passed, a :: as = passed ++ (advanceWhile p a as).1 :: (advanceWhile p a as).2 ∧
      ((advanceWhile p a as).1 = a ∨ p (advanceWhile p a as).1 = true) ∧
      ∀ b ∈ (advanceWhile p a as).2.head?, p b = false := by
  induction as generalizing a with
  | nil => exact ⟨[], rfl, .inl rfl, nofun⟩
  | cons b bs ih =>
    cases hb : p b with
    | false =>
      rw [advanceWhile, hb]
      exact ⟨[], rfl, .inl rfl, fun c hc => by cases hc; exact hb⟩
    | true =>
      obtain ⟨passed, hsplit, hreached, hbehind⟩ := ih b
      rw [advanceWhile, hb, if_pos rfl]
      refine ⟨a :: passed, by rw [hsplit, List.cons_append], ?_, hbehind⟩
      rcases hreached with heq | hp
      · exact .inr (heq.symm ▸ hb)
      · exact .inr hp

theorem advanceWhile_eq {α : Type} {p : α → Bool} {a c : α} {as passed behind : List α}
    (hsplit : a :: as = passed ++ c :: behind) (hp : ∀ b ∈ passed ++ [c], p b = true)
    (hbehind : ∀ b ∈ behind.head?, p b = false) : advanceWhile p a as = (c, behind) := by
  induction passed generalizing a as with
  | nil =>
    obtain ⟨rfl, rfl⟩ : a = c ∧ as = behind := by simpa using hsplit
    cases as with
    | nil => rfl
    | cons b bs => rw [advanceWhile, hbehind b rfl, if_neg (by simp)]
  | cons b passed ih =>
    rw [List.cons_append, List.cons.injEq] at hsplit
    obtain ⟨rfl, rfl⟩ := hsplit
    have hp' : ∀ b ∈ passed ++ [c], p b = true := fun b hb => hp b (List.mem_cons_of_mem a hb)
    cases passed with
    | nil =>
      rw [List.nil_append, advanceWhile, hp' c (by simp), if_pos rfl]
      exact ih rfl hp'
    | cons b passed =>
      rw [List.cons_append, advanceWhile, hp' b (by simp), if_pos rfl]
      exact ih rfl hp'

def Checkpoint.Before (a b : Checkpoint) : Prop :=
  a.offset < b.offset ∧ a.line < b.line

/-- One checkpoint is before another, by `span` bytes or more. -/
def Checkpoint.Apart (span : Nat) (a b : Checkpoint) : Prop :=
  a.offset + span ≤ b.offset ∧ a.line < b.line

theorem Checkpoint.Apart.before {span : Nat} {a b : Checkpoint} (h : Apart span a b)
    (hspan : 0 < span) : a.Before b :=
  ⟨Nat.lt_of_lt_of_le (Nat.lt_add_of_pos_right hspan) h.1, h.2⟩

section Sampled

variable {span : Nat}

theorem exists_of_mem_sampled {last line : Nat} {is : List Instruction} {c : Checkpoint}
    (hc : c ∈ sampled span last line is) :
    last + span ≤ c.offset ∧ ∃ k i, is[k]? = some i ∧ c.offset = i.address ∧ c.line = line + k := by
  induction is generalizing last line with
  | nil => cases hc
  | cons i is ih =>
    rw [sampled] at hc
    split at hc
    · rename_i hfar
      rcases List.mem_cons.1 hc with rfl | hc
      · exact ⟨hfar, 0, i, rfl, rfl, rfl⟩
      · obtain ⟨hlast, k, j, hk, hoffset, hline⟩ := ih hc
        exact ⟨by omega, k + 1, j, by simpa using hk, hoffset, by omega⟩
    · obtain ⟨hlast, k, j, hk, hoffset, hline⟩ := ih hc
      exact ⟨hlast, k + 1, j, by simpa using hk, hoffset, by omega⟩

theorem sampled_apart (last line : Nat) (is : List Instruction) :
    (sampled span last line is).Pairwise (Checkpoint.Apart span) := by
  induction is generalizing last line with
  | nil => exact List.Pairwise.nil
  | cons i is ih =>
    rw [sampled]
    split
    · refine List.pairwise_cons.2 ⟨fun c hc => ?_, ih _ _⟩
      obtain ⟨hlast, k, j, hk, hoffset, hline⟩ := exists_of_mem_sampled hc
      exact ⟨hlast, by dsimp only; omega⟩
    · exact ih _ _

theorem sampled_pairwise (hspan : 0 < span) (last line : Nat) (is : List Instruction) :
    (sampled span last line is).Pairwise Checkpoint.Before :=
  (sampled_apart last line is).imp fun h => h.before hspan

end Sampled

namespace Index

variable {z : Zone} {content : Array UInt8} {d : Decoding} {config : Config}

theorem lines_tiles (hd : d.Echoes) :
    Tiles (z.trueStart content d) (z.lines content d config) (ofZone z content d config).codeEnd :=
  (Zone.linear_tiles hd _).of_isPrefix (z.lines_isPrefix content d config)

/-- A checkpoint is where the line that it names begins. -/
theorem checkpoint_offset_eq (hd : d.Echoes) {c : Checkpoint}
    (hc : c ∈ (ofZone z content d config).checkpoints) :
    c.offset = reach (z.trueStart content d) ((z.lines content d config).take c.line) := by
  rcases List.mem_cons.1 hc with rfl | hc
  · exact (reach_nil _).symm
  · obtain ⟨-, k, i, hk, hoffset, hline⟩ := exists_of_mem_sampled hc
    rw [hoffset, (lines_tiles hd).address_eq hk, hline, Nat.zero_add]

theorem checkpoints_pairwise (hd : d.Echoes) :
    (ofZone z content d config).checkpoints.Pairwise Checkpoint.Before := by
  refine List.pairwise_cons.2 ⟨fun c hc => ?_, sampled_pairwise (Nat.le_max_right _ 1) _ _ _⟩
  have hspan : 1 ≤ max config.checkpointSpan 1 := Nat.le_max_right _ 1
  have hlast := (exists_of_mem_sampled hc).1
  have hoffset := checkpoint_offset_eq hd (List.mem_cons_of_mem _ hc)
  refine ⟨show z.trueStart content d < c.offset by omega, Nat.pos_of_ne_zero fun hline => ?_⟩
  -- the instruction on line 0 is where decoding starts, so it is not sampled
  rw [hline, List.take_zero, reach_nil] at hoffset
  omega

/-- `c` is the last checkpoint up to some place, and `behind` are those behind it. -/
def Splits (x : Index) (c : Checkpoint) (behind : List Checkpoint) : Prop :=
  ∃ passed, x.checkpoints = passed ++ c :: behind

/-- The line that the lines closest to a checkpoint go up to, given the checkpoints behind it. -/
def boundOf (x : Index) (behind : List Checkpoint) : Nat :=
  (behind.head?.map (·.line)).getD x.lineCount

theorem Splits.mem {x : Index} {c : Checkpoint} {behind : List Checkpoint} (h : x.Splits c behind) :
    c ∈ x.checkpoints := by
  obtain ⟨passed, h⟩ := h
  rw [h]
  exact List.mem_append_right passed List.mem_cons_self

theorem Splits.mem_of_next {x : Index} {b c : Checkpoint} {behind : List Checkpoint}
    (h : x.Splits c behind) (hb : b ∈ behind.head?) : b ∈ x.checkpoints := by
  obtain ⟨passed, h⟩ := h
  rw [h]
  exact List.mem_append_right passed (List.mem_cons_of_mem c (List.mem_of_mem_head? hb))

theorem Splits.ordered {x : Index} {c : Checkpoint} {behind : List Checkpoint}
    (hx : x.checkpoints.Pairwise Checkpoint.Before) (h : x.Splits c behind) :
    ∃ passed, x.checkpoints = passed ++ c :: behind ∧
      (∀ b ∈ passed ++ [c], b.offset ≤ c.offset ∧ b.line ≤ c.line) ∧
      ∀ b ∈ behind.head?, c.Before b := by
  obtain ⟨passed, hsplit⟩ := h
  rw [hsplit, List.pairwise_append] at hx
  obtain ⟨-, htail, hcross⟩ := hx
  refine ⟨passed, hsplit, fun b hb => ?_, fun b hb => ?_⟩
  · rcases List.mem_append.1 hb with hb | hb
    · have hbefore := hcross b hb c List.mem_cons_self
      exact ⟨Nat.le_of_lt hbefore.1, Nat.le_of_lt hbefore.2⟩
    · rw [List.mem_singleton.1 hb]
      exact ⟨Nat.le_refl _, Nat.le_refl _⟩
  · exact (List.pairwise_cons.1 htail).1 b (List.mem_of_mem_head? hb)

theorem bracketLine_splits (x : Index) (line : Nat) :
    x.Splits (x.bracketLine line).1 (x.bracketLine line).2 ∧ (x.bracketLine line).1.line ≤ line ∧
      ∀ b ∈ (x.bracketLine line).2.head?, line < b.line := by
  obtain ⟨passed, hsplit, hreached, hbehind⟩ :=
    advanceWhile_split (fun c : Checkpoint => decide (c.line ≤ line)) x.first x.samples
  refine ⟨⟨passed, hsplit⟩, ?_, fun b hb => by simpa using hbehind b hb⟩
  rw [bracketLine]
  rcases hreached with heq | hle
  · rw [heq]
    exact Nat.zero_le line
  · exact of_decide_eq_true hle

/-- All lines from a checkpoint up to the next have that checkpoint. -/
theorem bracketLine_eq {x : Index} {c : Checkpoint} {behind : List Checkpoint} {line : Nat}
    (hx : x.checkpoints.Pairwise Checkpoint.Before) (h : x.Splits c behind) (hle : c.line ≤ line)
    (hlt : ∀ b ∈ behind.head?, line < b.line) : x.bracketLine line = (c, behind) := by
  obtain ⟨passed, hsplit, hpassed, -⟩ := h.ordered hx
  refine advanceWhile_eq hsplit (fun b hb => ?_) fun b hb => ?_
  · exact decide_eq_true (Nat.le_trans (hpassed b hb).2 hle)
  · exact decide_eq_false (Nat.not_le.2 (hlt b hb))

theorem closestByOffset?_splits {x : Index} {offset : Nat} {c : Checkpoint}
    (hc : x.closestByOffset? offset = some c) :
    c.offset ≤ offset ∧ ∃ behind, x.Splits c behind ∧ ∀ b ∈ behind.head?, offset < b.offset := by
  unfold closestByOffset? at hc
  split at hc
  · rename_i hle
    cases hc
    obtain ⟨passed, hsplit, hreached, hbehind⟩ :=
      advanceWhile_split (fun c : Checkpoint => decide (c.offset ≤ offset)) x.first x.samples
    refine ⟨?_, _, ⟨passed, hsplit⟩, fun b hb => by simpa using hbehind b hb⟩
    rcases hreached with heq | hle'
    · rw [heq]
      exact hle
    · simpa using hle'
  · cases hc

end Index
end Disassembly
