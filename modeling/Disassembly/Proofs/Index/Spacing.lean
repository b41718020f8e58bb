import Disassembly.Proofs.Index.Erratic
import Disassembly.Proofs.Seeker.Step

/-! # How far apart checkpoints are

The checkpoint found for a line or an offset is the greatest one that is not too far. Since one is
taken as soon as a span of bytes has gone by, every line begins less than a span behind some
checkpoint; and each line in between takes a byte at least, so it is also less than a span of lines
behind the closest one. Checkpoints that were dropped at the end have no line behind them.
-/

namespace Disassembly
namespace Index

/-- `c` has the greatest `key` among the checkpoints whose `key` is at most `n`. -/
structure IsGreatest (x : Index) (key : Checkpoint → Nat) (n : Nat) (c : Checkpoint) : Prop where
  mem : c ∈ x.checkpoints
  le : key c ≤ n
  greatest : ∀ b ∈ x.checkpoints, key b ≤ n → key b ≤ key c

/-- The closest checkpoint is the one with the greatest line, or the greatest offset, that is not
too far; no checkpoint is found for offsets before the start of decoding. -/
structure FindsClosest (x : Index) : Prop where
  byLine_iff : ∀ line c, x.closestByLine line = c ↔ x.IsGreatest (·.line) line c
  byOffset_iff : ∀ offset c,
    x.closestByOffset? offset = some c ↔ x.IsGreatest (·.offset) offset c
  byOffset_none_iff : ∀ offset, x.closestByOffset? offset = none ↔ offset < x.trueStart

section Greatest

variable {x : Index} {key : Checkpoint → Nat} {n : Nat} {b c : Checkpoint}
  {behind : List Checkpoint}

theorem Splits.isGreatest (hx : x.checkpoints.Pairwise Checkpoint.Before)
    (hkey : ∀ {a b : Checkpoint}, a.Before b → key a < key b) (h : x.Splits c behind)
    (hle : key c ≤ n) (hbehind : ∀ b ∈ behind.head?, n < key b) : x.IsGreatest key n c := by
  refine ⟨h.mem, hle, fun b hb hbn => ?_⟩
  obtain ⟨passed, hsplit⟩ := h
  rw [hsplit] at hx hb
  obtain ⟨-, htail, hcross⟩ := List.pairwise_append.1 hx
  rcases List.mem_append.1 hb with hb | hb
  · exact Nat.le_of_lt (hkey (hcross b hb c List.mem_cons_self))
  rcases List.mem_cons.1 hb with rfl | hb
  · exact Nat.le_refl _
  -- the first one behind is too far already, and so are the others
  cases behind with
  | nil => cases hb
  | cons a behind =>
    have hfar : n < key a := hbehind a rfl
    rcases List.mem_cons.1 hb with rfl | hb
    · omega
    · have hab := hkey ((List.pairwise_cons.1 (List.pairwise_cons.1 htail).2).1 b hb)
      omega

theorem IsGreatest.unique (hx : x.checkpoints.Pairwise Checkpoint.Before)
    (hkey : ∀ {a b : Checkpoint}, a.Before b → key a < key b) (hb : x.IsGreatest key n b)
    (hc : x.IsGreatest key n c) : b = c := by
  have hsame : key b = key c :=
    Nat.le_antisymm (hc.greatest b hb.mem hb.le) (hb.greatest c hc.mem hc.le)
  -- of two checkpoints one is before the other, and then the keys differ
  have hinj : ∀ a ∈ x.checkpoints, ∀ b ∈ x.checkpoints, key a = key b → a = b :=
    List.Pairwise.forall_of_forall_of_flip (fun _ _ _ => rfl)
      (hx.imp fun h heq => absurd heq (Nat.ne_of_lt (hkey h)))
      (hx.imp fun h heq => absurd heq (Nat.ne_of_gt (hkey h)))
  exact hinj b hb.mem c hc.mem hsame

theorem findsClosest (hx : x.checkpoints.Pairwise Checkpoint.Before) : x.FindsClosest where
  byLine_iff line c := by
    obtain ⟨hsplits, hle, hbehind⟩ := x.bracketLine_splits line
    have hgreatest : x.IsGreatest (·.line) line (x.closestByLine line) :=
      hsplits.isGreatest hx (fun h => h.2) hle hbehind
    constructor
    · rintro rfl
      exact hgreatest
    · exact hgreatest.unique hx (fun h => h.2)
  byOffset_iff offset c := by
    have hgreatest : ∀ {b}, x.closestByOffset? offset = some b →
        x.IsGreatest (·.offset) offset b := fun hb => by
      obtain ⟨hle, behind, hsplits, hbehind⟩ := closestByOffset?_splits hb
      exact hsplits.isGreatest hx (fun h => h.1) hle hbehind
    refine ⟨hgreatest, fun hc => ?_⟩
    -- the start of decoding is not behind the checkpoint, so one is found
    have hstart : x.trueStart ≤ offset := by
      rcases List.mem_cons.1 hc.mem with rfl | hmem
      · exact hc.le
      · have hbefore := (List.pairwise_cons.1 hx).1 c hmem
        exact Nat.le_trans (Nat.le_of_lt hbefore.1) hc.le
    have hfound : x.closestByOffset? offset = some _ := if_pos hstart
    rw [hfound, (hgreatest hfound).unique hx (fun h => h.1) hc]
  byOffset_none_iff offset := by
    rw [closestByOffset?]
    split <;> simp <;> omega

end Greatest

/-- Every instruction begins less than a span behind the checkpoint that was given, or behind a
sampled one that is not on a later line. -/
theorem exists_sampled_near {span last line k : Nat} {is : List Instruction} {i : Instruction}
    (hspan : 0 < span) (hk : is[k]? = some i) :
    i.address < last + span ∨
      ∃ c ∈ sampled span last line is, c.line ≤ line + k ∧ i.address < c.offset + span := by
  induction is generalizing last line k with
  | nil => cases hk
  | cons j is ih =>
    rw [sampled]
    cases k with
    | zero =>
      obtain rfl : j = i := by simpa using hk
      by_cases hfar : last + span ≤ j.address
      · rw [if_pos hfar]
        exact .inr ⟨_, List.mem_cons_self, Nat.le_refl line, Nat.lt_add_of_pos_right hspan⟩
      · exact .inl (Nat.lt_of_not_le hfar)
    | succ k =>
      rw [List.getElem?_cons_succ] at hk
      split
      · rcases @ih j.address (line + 1) k hk with hnear | ⟨c, hc, hline, hnear⟩
        · exact .inr ⟨_, List.mem_cons_self, Nat.le_add_right line (k + 1), hnear⟩
        · exact .inr ⟨c, List.mem_cons_of_mem _ hc, by omega, hnear⟩
      · rcases @ih last (line + 1) k hk with hnear | ⟨c, hc, hline, hnear⟩
        · exact .inl hnear
        · exact .inr ⟨c, hc, by omega, hnear⟩

end Index

variable {z : Zone} {content : Array UInt8} {d : Decoding} {config : Config}

theorem Zone.lineStart_add_le {k l : Nat} (hle : k ≤ l)
    (hl : l ≤ (z.lines content d config).length) :
    z.lineStart content d config k + (l - k) ≤ z.lineStart content d config l := by
  have hsplit := (List.take_append_drop k ((z.lines content d config).take l)).symm
  rw [List.take_take, Nat.min_eq_left hle] at hsplit
  have hlength : (((z.lines content d config).take l).drop k).length = l - k := by
    rw [List.length_drop, List.length_take, Nat.min_eq_left hl]
  have hpos : ∀ i ∈ ((z.lines content d config).take l).drop k, 0 < i.length := fun i hi =>
    length_pos_of_mem_linear ((z.lines_isPrefix content d config).subset
      (List.mem_of_mem_take (List.mem_of_mem_drop hi)))
  calc z.lineStart content d config k + (l - k)
      ≤ reach (z.lineStart content d config k) (((z.lines content d config).take l).drop k) := by
        rw [← hlength]
        exact length_le_reach hpos
    _ = z.lineStart content d config l := by
        rw [lineStart, ← reach_append, ← hsplit, lineStart]

/-- A line is less than a span of lines behind the checkpoint closest to it. -/
theorem Index.distance_lt (hd : d.Echoes) {line : Nat}
    (hline : line < (ofZone z content d config).lineCount) :
    line - ((ofZone z content d config).closestByLine line).line <
      max config.checkpointSpan 1 := by
  have hspan : 0 < max config.checkpointSpan 1 := Nat.le_max_right _ 1
  have hi := List.getElem?_eq_getElem (show line < (z.lines content d config).length from hline)
  have hordered := @checkpoints_pairwise z content d config hd
  have hgreatest := ((findsClosest hordered).byLine_iff line _).1 rfl
  obtain ⟨b, hb, hle, hnear⟩ : ∃ b ∈ (ofZone z content d config).checkpoints, b.line ≤ line ∧
      (z.lines content d config)[line].address < b.offset + max config.checkpointSpan 1 := by
    rcases @exists_sampled_near _ (z.trueStart content d) 0 line _ _ hspan hi with
      hnear | ⟨c, hc, hle, hnear⟩
    · exact ⟨_, List.mem_cons_self, Nat.zero_le line, hnear⟩
    · exact ⟨c, List.mem_cons_of_mem _ hc, by omega, hnear⟩
  have hbytes := @Zone.lineStart_add_le z content d config b.line line hle (Nat.le_of_lt hline)
  rw [Zone.lineStart_eq_address hd hi, Zone.lineStart, ← checkpoint_offset_eq hd hb] at hbytes
  have hclosest := hgreatest.greatest b hb hle
  omega

end Disassembly
