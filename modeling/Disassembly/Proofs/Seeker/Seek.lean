import Disassembly.Proofs.Seeker.Step

/-! # What a seek finds

A seeker is sound if the line that it found last is what a sweep has there, the cursor is behind it,
and the checkpoint is the one closest to it. Every seek from a sound seeker finds what the zone has,
or fails; and it leaves the seeker sound in either case, since a failed one resets it.
-/

namespace Disassembly

variable {σ : Type}

/-- What a seek for `line` gives if `i` is on it. -/
def Index.seekOn (x : Index) (line : Nat) (i : Instruction) : Seek where
  instruction := i
  line := line
  distance := line - (x.closestByLine line).line

namespace Zone

def seekLine (z : Zone) (content : Array UInt8) (d : Decoding) (config : Config) (line : Nat) :
    Option Seek :=
  (z.lines content d config)[line]?.map ((Index.ofZone z content d config).seekOn line)

def seekOffset (z : Zone) (content : Array UInt8) (d : Decoding) (config : Config)
    (offset : Nat) : Option Seek :=
  ((z.lines content d config).findIdx? (·.contains offset)).bind (z.seekLine content d config)

end Zone

/-- The position is behind a line of the zone, with the checkpoint closest to that line. -/
structure Position.IsBehind (p : Position) (z : Zone) (content : Array UInt8) (d : Decoding)
    (config : Config) (line : Nat) (i : Instruction) : Prop where
  line_eq : (z.lines content d config)[line]? = some i
  cursor_eq : p.cursor = i.stop
  checkpoint_eq : p.checkpoint = ((Index.ofZone z content d config).bracketLine line).1
  bound_eq : p.bound = (Index.ofZone z content d config).boundOf
    ((Index.ofZone z content d config).bracketLine line).2

structure Position.Sound (p : Position) (z : Zone) (content : Array UInt8) (d : Decoding)
    (config : Config) : Prop where
  window_slice : ∀ v ∈ p.window, v.IsSlice content z.stop
  current_behind : ∀ line i, p.current = some (line, i) → p.IsBehind z content d config line i

/-- A seeker of the zone in a sound position. -/
structure Seeker.Sound (s : Seeker) (z : Zone) (content : Array UInt8) (d : Decoding)
    (config : Config) : Prop where
  stop_eq : s.stop = z.stop
  position : s.toPosition.Sound z content d config

/-- What is wanted is found and nothing has failed; or it is not found, and then there is no such
thing or something has failed. -/
def Seeker.Answers (want : Option Seek) (r : Except Error Seek) (before after : Nat) : Prop :=
  (∃ seek, want = some seek ∧ r = .ok seek ∧ after = before) ∨
    ((∃ e, r = .error e) ∧ before ≤ after ∧ (after = before → want = none))

namespace Seeker.Answers

variable {want : Option Seek} {r : Except Error Seek} {before after : Nat}

theorem want_eq (h : Answers want r before after) {seek : Seek} (hr : r = .ok seek) :
    want = some seek := by
  rcases h with ⟨found, hwant, hfound, -⟩ | ⟨⟨e, he⟩, -⟩
  · rw [hwant, ← Except.ok.inj (hfound.symm.trans hr)]
  · cases he.symm.trans hr

theorem ok_iff (h : Answers want r before after) (hquiet : after = before) :
    (∃ seek, r = .ok seek) ↔ ∃ seek, want = some seek := by
  rcases h with ⟨found, hwant, hfound, -⟩ | ⟨⟨e, he⟩, -, hnone⟩
  · exact ⟨fun _ => ⟨found, hwant⟩, fun _ => ⟨found, hfound⟩⟩
  · rw [he, hnone hquiet]
    exact ⟨nofun, nofun⟩

theorem eq_ok (h : Answers want r before after) (hquiet : after = before) {seek : Seek}
    (hwant : want = some seek) : r = .ok seek := by
  obtain ⟨found, hr⟩ := (h.ok_iff hquiet).2 ⟨seek, hwant⟩
  rw [hr, Option.some.inj ((h.want_eq hr).symm.trans hwant)]

theorem faults_le (h : Answers want r before after) : before ≤ after := by
  rcases h with ⟨found, -, -, heq⟩ | ⟨-, hle, -⟩
  · exact Nat.le_of_eq heq.symm
  · exact hle

end Seeker.Answers

variable {z : Zone} {content : Array UInt8} {d : Decoding} {config : Config}

namespace Zone

theorem codeEnd_le (hz : z.LiesIn content) :
    (Index.ofZone z content d config).codeEnd ≤ z.stop := by
  have hstart := @trueStart_mem d content z hz.fault?_eq
  have hentry := stop_eq_of_fault? hz.fault?_eq
  have hle := @reach_linear_le d content z (z.trueStart content d) (by omega)
  have hpre := @reach_le_of_isPrefix (z.trueStart content d) _ _ (z.lines_isPrefix content d config)
  exact Nat.le_trans hpre hle

theorem lineStart_le (hz : z.LiesIn content) (line : Nat) :
    z.lineStart content d config line ≤ z.stop :=
  Nat.le_trans (reach_le_of_isPrefix (List.take_prefix line _)) (codeEnd_le hz)

theorem lineStart_mono {k l : Nat} (h : k ≤ l) :
    z.lineStart content d config k ≤ z.lineStart content d config l :=
  reach_le_of_isPrefix (List.take_prefix_take_left h)

/-- The indexed code is what the lines contain. -/
theorem covers_iff (hd : d.Echoes) {offset : Nat} :
    (Index.ofZone z content d config).covers offset = true ↔
      ∃ (line : Nat) (i : Instruction),
        (z.lines content d config)[line]? = some i ∧ i.contains offset = true := by
  have htiles := @Index.lines_tiles z content d config hd
  rw [Index.covers, Bool.and_eq_true, decide_eq_true_eq, decide_eq_true_eq]
  constructor
  · rintro ⟨hstart, hstop⟩
    exact htiles.exists_contains hstart hstop
  · rintro ⟨line, i, hi, hcontains⟩
    rw [Instruction.contains, Bool.and_eq_true, decide_eq_true_eq, decide_eq_true_eq] at hcontains
    have hstart : z.trueStart content d ≤ z.lineStart content d config line := le_reach _ _
    have hstop : z.lineStart content d config (line + 1) ≤
        (Index.ofZone z content d config).codeEnd :=
      reach_le_of_isPrefix (List.take_prefix (line + 1) _)
    rw [lineStart_eq_address hd hi] at hstart
    rw [lineStart_succ hd hi] at hstop
    exact ⟨Nat.le_trans hstart hcontains.1, Nat.lt_of_lt_of_le hcontains.2 hstop⟩

/-- Nothing is at an offset that is not covered. -/
theorem seekOffset_eq_none (hd : d.Echoes) {offset : Nat}
    (h : ¬ (Index.ofZone z content d config).covers offset = true) :
    z.seekOffset content d config offset = none := by
  have hnone : (z.lines content d config).findIdx? (·.contains offset) = none := by
    rw [List.findIdx?_eq_none_iff]
    intro i hi
    obtain ⟨k, hk⟩ := List.getElem?_of_mem hi
    exact Bool.eq_false_iff.2 fun hcontains => h ((covers_iff hd).2 ⟨k, i, hk, hcontains⟩)
  rw [seekOffset, hnone]
  rfl

theorem seekOffset_eq (hd : d.Echoes) {offset line : Nat} {i : Instruction}
    (hi : (z.lines content d config)[line]? = some i) (hcontains : i.contains offset = true) :
    z.seekOffset content d config offset = z.seekLine content d config line := by
  have htiles := @Index.lines_tiles z content d config hd
  cases hfind : (z.lines content d config).findIdx? (·.contains offset) with
  | none =>
    rw [List.findIdx?_eq_none_iff] at hfind
    have hnot := hfind i (List.mem_of_getElem? hi)
    rw [hcontains] at hnot
    cases hnot
  | some k =>
    obtain ⟨hk, hj, -⟩ := List.findIdx?_eq_some_iff_getElem.1 hfind
    have heq := htiles.contains_unique (List.getElem?_eq_getElem hk) hi hj hcontains
    rw [seekOffset, hfind, Option.bind_some, heq]

theorem seekLine_eq_some_iff {line : Nat} {seek : Seek} :
    z.seekLine content d config line = some seek ↔
      ∃ i, (z.lines content d config)[line]? = some i ∧
        seek = (Index.ofZone z content d config).seekOn line i := by
  rw [seekLine, Option.map_eq_some_iff]
  exact exists_congr fun i => and_congr_right fun _ => eq_comm

theorem seekOffset_eq_some_iff (hd : d.Echoes) {offset : Nat} {seek : Seek} :
    z.seekOffset content d config offset = some seek ↔
      ∃ (line : Nat) (i : Instruction), (z.lines content d config)[line]? = some i ∧
        i.contains offset = true ∧ seek = (Index.ofZone z content d config).seekOn line i := by
  constructor
  · intro h
    cases hcovers : (Index.ofZone z content d config).covers offset with
    | false =>
      rw [seekOffset_eq_none hd (Bool.eq_false_iff.1 hcovers)] at h
      cases h
    | true =>
      obtain ⟨line, i, hi, hcontains⟩ := (covers_iff hd).1 hcovers
      rw [seekOffset_eq hd hi hcontains, seekLine_eq_some_iff] at h
      obtain ⟨j, hj, hseek⟩ := h
      obtain rfl : i = j := Option.some.inj (hi.symm.trans hj)
      exact ⟨line, i, hi, hcontains, hseek⟩
  · rintro ⟨line, i, hi, hcontains, hseek⟩
    rw [seekOffset_eq hd hi hcontains, seekLine_eq_some_iff]
    exact ⟨i, hi, hseek⟩

end Zone

namespace Seeker

variable {source : Source σ} {dec : Decoder σ} {faults : σ → Nat} {s : Seeker}

theorem Sound.steady (hs : s.Sound z content d config) : s.Steady z content :=
  ⟨hs.stop_eq, hs.position.window_slice⟩

theorem Steady.sound (hs : s.Steady z content) (hcurrent : s.current = none) :
    s.Sound z content d config :=
  ⟨hs.stop_eq, hs.window_slice, fun line i h => by rw [hcurrent] at h; cases h⟩

theorem Steady.sound_reset (hs : s.Steady z content) : s.reset.Sound z content d config :=
  Steady.sound (s := s.reset) ⟨hs.stop_eq, hs.window_slice⟩ rfl

/-- The seeker with the checkpoint closest to a line, and no current instruction. -/
def headFor (s : Seeker) (index : Index) (line : Nat) : Seeker :=
  { s with
    checkpoint := (index.bracketLine line).1
    bound := index.boundOf (index.bracketLine line).2
    current := none }

theorem moveTo_eq (index : Index) (line : Nat) (w : σ) :
    s.moveTo source index line w =
      if s.window.any (·.contains (index.bracketLine line).1.offset) then
        (.ok (index.bracketLine line).1,
          { s.headFor index line with cursor := (index.bracketLine line).1.offset }, w)
      else
        match (s.headFor index line).fetch source (index.bracketLine line).1.offset w with
        | (.error e, s, w) => (.error e, s, w)
        | (.ok (), s, w) => (.ok (index.bracketLine line).1,
            { s with cursor := (index.bracketLine line).1.offset }, w) := by
  simp only [moveTo, headFor]
  generalize index.bracketLine line = bracket
  obtain ⟨checkpoint, _ | ⟨next, behind⟩⟩ := bracket <;> rfl

theorem moveTo_cases (hd : d.Echoes) (hz : z.LiesIn content)
    (hsource : source.Serves content faults) (hs : s.Steady z content) {line : Nat} {w w' : σ}
    {s' : Seeker} {r : Except Error Checkpoint}
    (h : s.moveTo source (Index.ofZone z content d config) line w = (r, s', w')) :
    s'.Steady z content ∧ s'.current = none ∧
      ((r = .ok s'.checkpoint ∧
        s'.checkpoint = ((Index.ofZone z content d config).bracketLine line).1 ∧
        s'.bound = (Index.ofZone z content d config).boundOf
          ((Index.ofZone z content d config).bracketLine line).2 ∧
        s'.cursor = z.lineStart content d config s'.checkpoint.line ∧ faults w' = faults w) ∨
      ((∃ e, r = .error e) ∧ faults w < faults w')) := by
  have hsplits := ((Index.ofZone z content d config).bracketLine_splits line).1
  have hoffset := Index.checkpoint_offset_eq hd hsplits.mem
  have hle : ((Index.ofZone z content d config).bracketLine line).1.offset ≤ z.stop := by
    rw [hoffset]
    exact Zone.lineStart_le hz _
  have hhead : (s.headFor (Index.ofZone z content d config) line).Steady z content :=
    ⟨hs.stop_eq, hs.window_slice⟩
  -- the window is kept if it has the place of the checkpoint
  rw [moveTo_eq] at h
  split at h
  · cases h
    exact ⟨⟨hs.stop_eq, hs.window_slice⟩, rfl, .inl ⟨rfl, rfl, rfl, hoffset, rfl⟩⟩
  · cases hfetch : (s.headFor (Index.ofZone z content d config) line).fetch source
      ((Index.ofZone z content d config).bracketLine line).1.offset w with
    | mk fetched rest =>
      obtain ⟨s₁, w₁⟩ := rest
      rw [hfetch] at h
      rcases fetch_cases hz hsource hhead hle hfetch with
        ⟨v, rfl, rfl, hw, -, -, hslice⟩ | ⟨⟨e, rfl⟩, rfl, hw⟩
      · cases h
        refine ⟨⟨hs.stop_eq, fun u hu => ?_⟩, rfl, .inl ⟨rfl, rfl, rfl, hoffset, hw⟩⟩
        cases hu
        exact hslice
      · cases h
        exact ⟨⟨hs.stop_eq, nofun⟩, rfl, .inr ⟨⟨e, rfl⟩, hw⟩⟩

theorem Behind.isBehind {s' : Seeker} {line : Nat} {i : Instruction}
    (h : s'.Behind z content line i s) (hi : (z.lines content d config)[line]? = some i)
    (hcheckpoint : s.checkpoint = ((Index.ofZone z content d config).bracketLine line).1)
    (hbound : s.bound = (Index.ofZone z content d config).boundOf
      ((Index.ofZone z content d config).bracketLine line).2) :
    s'.toPosition.IsBehind z content d config line i where
  line_eq := hi
  cursor_eq := h.cursor_eq
  checkpoint_eq := h.checkpoint_eq.trans hcheckpoint
  bound_eq := h.bound_eq.trans hbound

theorem Behind.sound {s' : Seeker} {line : Nat} {i : Instruction}
    (h : s'.Behind z content line i s)
    (hbehind : s'.toPosition.IsBehind z content d config line i) :
    s'.Sound z content d config where
  stop_eq := h.steady.stop_eq
  position := {
    window_slice := h.steady.window_slice
    current_behind := fun l j hcurrent => by
      rw [h.current_eq] at hcurrent
      cases hcurrent
      exact hbehind }

theorem seekLine_of_isBehind {line : Nat} {i : Instruction}
    (h : s.toPosition.IsBehind z content d config line i) :
    z.seekLine content d config line = some (s.found line i) := by
  rw [Zone.seekLine, h.line_eq, found, h.checkpoint_eq]
  rfl

/-- The checkpoint closest to an offset is the one closest to the line that the offset is on. -/
theorem closest_brackets (hd : d.Echoes) {offset line : Nat} {i : Instruction} {c : Checkpoint}
    (hi : (z.lines content d config)[line]? = some i) (hcontains : i.contains offset = true)
    (hc : (Index.ofZone z content d config).closestByOffset? offset = some c) :
    c.line ≤ line ∧ (Index.ofZone z content d config).bracketLine c.line =
      (Index.ofZone z content d config).bracketLine line ∧
      ((Index.ofZone z content d config).bracketLine line).1 = c := by
  obtain ⟨hoffset, behind, hsplits, hbehind⟩ := Index.closestByOffset?_splits hc
  have hordered := @Index.checkpoints_pairwise z content d config hd
  obtain ⟨passed, hpassed, -, hbefore⟩ := hsplits.ordered hordered
  rw [Instruction.contains, Bool.and_eq_true, decide_eq_true_eq, decide_eq_true_eq] at hcontains
  have hstart := Index.checkpoint_offset_eq hd hsplits.mem
  -- a later checkpoint's line would begin after the offset, an earlier line would end before it
  have hle : c.line ≤ line := by
    refine Nat.le_of_not_lt fun hlt => ?_
    have hmono := @Zone.lineStart_mono z content d config _ _ (Nat.succ_le_of_lt hlt)
    rw [Zone.lineStart_succ hd hi] at hmono
    rw [hstart] at hoffset
    exact absurd (Nat.le_trans hmono hoffset) (Nat.not_le.2 hcontains.2)
  have hlt : ∀ b ∈ behind.head?, line < b.line := by
    refine fun b hb => Nat.lt_of_not_le fun hle => ?_
    have hmem := hsplits.mem_of_next hb
    have hmono := @Zone.lineStart_mono z content d config _ _ hle
    rw [Zone.lineStart_eq_address hd hi] at hmono
    have hoffset := hbehind b hb
    rw [Index.checkpoint_offset_eq hd hmem] at hoffset
    exact absurd (Nat.le_trans hmono hcontains.1) (Nat.not_le.2 hoffset)
  have hline := Index.bracketLine_eq hordered hsplits hle hlt
  have hself := Index.bracketLine_eq hordered hsplits (Nat.le_refl _) fun b hb => (hbefore b hb).2
  exact ⟨hle, hself.trans hline.symm, by rw [hline]⟩

theorem byOffset_of_not_covers {index : Index} {offset : Nat} (h : index.covers offset = false)
    (w : σ) :
    s.byOffset source dec index offset w =
      (.error (Error.during .seeking { failure := .offsetOutOfRange offset }), s.reset, w) := by
  have hfrom : s.offsetFrom source dec index offset w =
      (.error { failure := .offsetOutOfRange offset }, s, w) := by
    rw [offsetFrom, h]
    cases index.closestByOffset? offset <;> rfl
  rw [byOffset, hfrom]

section Calls

variable (hd : d.Regular) (hz : z.LiesIn content) (hsource : source.Serves content faults)
  (hdec : dec.Follows d faults)

include hd hz hsource hdec

theorem steps_cases (hs : s.Steady z content) {more line : Nat} {i : Instruction}
    (hi : (z.lines content d config)[line + more]? = some i)
    (hcursor : s.cursor = z.lineStart content d config line) {w w' : σ} {s' : Seeker}
    {r : Except Error Instruction} (h : s.steps source dec more line w = (r, s', w')) :
    Ends r i (s'.Behind z content (line + more) i s) s' z content (faults w) (faults w') := by
  induction more generalizing s line w with
  | zero =>
    rw [Nat.add_zero] at hi ⊢
    rw [Zone.lineStart_eq_address hd.echoes hi] at hcursor
    exact step_cases hd hz hsource hdec hs hi hcursor h
  | succ more ih =>
    have hlt : line < (z.lines content d config).length := by
      have := (List.getElem?_eq_some_iff.1 hi).1
      omega
    have hj := List.getElem?_eq_getElem hlt
    rw [Zone.lineStart_eq_address hd.echoes hj] at hcursor
    rw [steps] at h
    cases hstep : s.step source dec line w with
    | mk answer rest =>
      obtain ⟨s₁, w₁⟩ := rest
      rw [hstep] at h
      rcases step_cases hd hz hsource hdec hs hj hcursor hstep with
        ⟨rfl, hbehind, hw₁⟩ | ⟨⟨e, rfl⟩, hsteady, hw₁⟩
      · have hcursor₁ := hbehind.cursor_eq.trans (Zone.lineStart_succ hd.echoes hj).symm
        have hadd : line + 1 + more = line + (more + 1) := by omega
        have hrest := ih hbehind.steady (hadd ▸ hi) hcursor₁ h
        rw [hadd] at hrest
        rcases hrest with ⟨hok, hend, hw⟩ | ⟨he, hend, hw⟩
        · exact .inl ⟨hok, hbehind.trans hend, by omega⟩
        · exact .inr ⟨he, hend, by omega⟩
      · cases h
        exact .inr ⟨⟨e, rfl⟩, hsteady, hw₁⟩

theorem search_cases (hs : s.Steady z content) {offset left line target : Nat} {i : Instruction}
    (hi : (z.lines content d config)[target]? = some i) (hcontains : i.contains offset = true)
    (hle : line ≤ target) (hleft : target < line + left)
    (hcursor : s.cursor = z.lineStart content d config line) {w w' : σ} {s' : Seeker}
    {r : Except Error Seek} (h : s.search source dec offset left line w = (r, s', w')) :
    Ends r (s'.found target i) (s'.Behind z content target i s) s' z content (faults w)
      (faults w') := by
  have htiles := @Index.lines_tiles z content d config hd.echoes
  -- the cursor stands where `line` begins, no further than `target`, and there are lines left to it
  induction left generalizing s line w with
  | zero => omega
  | succ left ih =>
    have hlt : line < (z.lines content d config).length := by
      have := (List.getElem?_eq_some_iff.1 hi).1
      omega
    have hj := List.getElem?_eq_getElem hlt
    rw [Zone.lineStart_eq_address hd.echoes hj] at hcursor
    rw [search] at h
    cases hstep : s.step source dec line w with
    | mk answer rest =>
      obtain ⟨s₁, w₁⟩ := rest
      rw [hstep] at h
      rcases step_cases hd hz hsource hdec hs hj hcursor hstep with
        ⟨rfl, hbehind, hw₁⟩ | ⟨⟨e, rfl⟩, hsteady, hw₁⟩
      · dsimp only at h
        split at h
        · rename_i hhit
          -- instructions do not overlap, so a line that has the offset is the target
          obtain rfl := htiles.contains_unique hj hi hhit hcontains
          rw [hj, Option.some.injEq] at hi
          cases h
          exact .inl ⟨by rw [hi], hi ▸ hbehind, hw₁⟩
        · rename_i hmiss
          have hne : line ≠ target := by
            rintro rfl
            rw [hj, Option.some.injEq] at hi
            exact hmiss (hi ▸ hcontains)
          have hcursor₁ := hbehind.cursor_eq.trans (Zone.lineStart_succ hd.echoes hj).symm
          rcases ih hbehind.steady (by omega) (by omega) hcursor₁ h with
            ⟨hok, hend, hw⟩ | ⟨he, hend, hw⟩
          · exact .inl ⟨hok, hbehind.trans hend, by omega⟩
          · exact .inr ⟨he, hend, by omega⟩
      · cases h
        exact .inr ⟨⟨e, rfl⟩, hsteady, hw₁⟩

theorem jumpTo_cases (hs : s.Steady z content) {line : Nat} {i : Instruction}
    (hi : (z.lines content d config)[line]? = some i) {w w' : σ} {s' : Seeker}
    {r : Except Error Instruction}
    (h : s.jumpTo source dec (Index.ofZone z content d config) line w = (r, s', w')) :
    Ends r i (s'.Sound z content d config ∧ s'.toPosition.IsBehind z content d config line i) s' z
      content (faults w) (faults w') := by
  have hle := ((Index.ofZone z content d config).bracketLine_splits line).2.1
  rw [jumpTo] at h
  cases hmove : s.moveTo source (Index.ofZone z content d config) line w with
  | mk moved rest =>
    obtain ⟨s₁, w₁⟩ := rest
    rw [hmove] at h
    obtain ⟨hsteady, -, hok | ⟨⟨e, rfl⟩, hw₁⟩⟩ := moveTo_cases hd.echoes hz hsource hs hmove
    · obtain ⟨rfl, hcheckpoint, hbound, hcursor, hw₁⟩ := hok
      have hline : s₁.checkpoint.line + (line - s₁.checkpoint.line) = line := by
        rw [hcheckpoint]
        omega
      have hsteps := steps_cases hd hz hsource hdec hsteady (hline.symm ▸ hi) hcursor h
      rw [hline] at hsteps
      rcases hsteps with ⟨rfl, hbehind, hw⟩ | ⟨he, hend, hw⟩
      · have hat := hbehind.isBehind hi hcheckpoint hbound
        exact .inl ⟨rfl, ⟨hbehind.sound hat, hat⟩, by omega⟩
      · exact .inr ⟨he, hend, by omega⟩
    · cases h
      exact .inr ⟨⟨e, rfl⟩, hsteady, hw₁⟩

/-- Finding a line from a sound position: it is there already, or is the next one, or is sought
from a checkpoint. -/
theorem lineFrom_cases (hs : s.Sound z content d config) {line : Nat} {i : Instruction}
    (hi : (z.lines content d config)[line]? = some i) {w w' : σ} {s' : Seeker}
    {r : Except Error Instruction}
    (h : s.lineFrom source dec (Index.ofZone z content d config) line w = (r, s', w')) :
    Ends r i (s'.Sound z content d config ∧ s'.toPosition.IsBehind z content d config line i) s' z
      content (faults w) (faults w') := by
  unfold lineFrom at h
  split at h
  · rename_i here j hcurrent
    have hat := hs.position.current_behind here j hcurrent
    split at h
    · rename_i hhere
      subst hhere
      obtain rfl : j = i := Option.some.inj (hat.line_eq.symm.trans hi)
      cases h
      exact .inl ⟨rfl, ⟨hs, hat⟩, rfl⟩
    · split at h
      · rename_i hnext
        obtain ⟨rfl, hlt⟩ := hnext
        obtain ⟨hsplits, hle, -⟩ := (Index.ofZone z content d config).bracketLine_splits here
        -- the next line has the same closest checkpoint, since it is before the bound
        have hbound : ∀ b ∈ ((Index.ofZone z content d config).bracketLine here).2.head?,
            here + 1 < b.line := fun b hb => by
          rw [hat.bound_eq, Index.boundOf, show _ = some b from hb] at hlt
          exact hlt
        have hbracket := Index.bracketLine_eq (Index.checkpoints_pairwise hd.echoes) hsplits
          (by omega) hbound
        have hcursor : s.cursor = i.address := by
          rw [hat.cursor_eq, ← Zone.lineStart_succ hd.echoes hat.line_eq,
            Zone.lineStart_eq_address hd.echoes hi]
        rcases step_cases hd hz hsource hdec hs.steady hi hcursor h with
          ⟨rfl, hbehind, hw⟩ | ⟨he, hend, hw⟩
        · have hat' := hbehind.isBehind hi (by rw [hbracket, hat.checkpoint_eq])
            (by rw [hbracket, hat.bound_eq])
          exact .inl ⟨rfl, ⟨hbehind.sound hat', hat'⟩, hw⟩
        · exact .inr ⟨he, hend, hw⟩
      · exact jumpTo_cases hd hz hsource hdec hs.steady hi h
  · exact jumpTo_cases hd hz hsource hdec hs.steady hi h

/-- Seeking to a line finds the line, unless there is none or something fails. -/
theorem byLine_answers (hs : s.Sound z content d config) {line : Nat} {w w' : σ} {s' : Seeker}
    {r : Except Error Seek}
    (h : s.byLine source dec (Index.ofZone z content d config) line w = (r, s', w')) :
    s'.Sound z content d config ∧
      Answers (z.seekLine content d config line) r (faults w) (faults w') := by
  rw [byLine] at h
  split at h
  · rename_i hrange
    cases h
    have hnone : (z.lines content d config)[line]? = none := List.getElem?_eq_none hrange
    refine ⟨hs.steady.sound_reset, .inr ⟨⟨_, rfl⟩, Nat.le_refl _, fun _ => ?_⟩⟩
    rw [Zone.seekLine, hnone]
    rfl
  · rename_i hrange
    have hi := List.getElem?_eq_getElem (Nat.lt_of_not_le hrange)
    cases hfrom : s.lineFrom source dec (Index.ofZone z content d config) line w with
    | mk found rest =>
      obtain ⟨s₁, w₁⟩ := rest
      rw [hfrom] at h
      rcases lineFrom_cases hd hz hsource hdec hs hi hfrom with
        ⟨rfl, ⟨hsound, hat⟩, hw⟩ | ⟨⟨e, rfl⟩, hsteady, hw⟩
      · cases h
        exact ⟨hsound, .inl ⟨_, seekLine_of_isBehind hat, rfl, hw⟩⟩
      · cases h
        exact ⟨hsteady.sound_reset, .inr ⟨⟨_, rfl⟩, by omega, fun hquiet => by omega⟩⟩

theorem offsetFrom_cases (hs : s.Steady z content) {offset line : Nat} {i : Instruction}
    (hi : (z.lines content d config)[line]? = some i) (hcontains : i.contains offset = true)
    {w w' : σ} {s' : Seeker} {r : Except Error Seek}
    (h : s.offsetFrom source dec (Index.ofZone z content d config) offset w = (r, s', w')) :
    Ends r (s'.found line i) (s'.Sound z content d config ∧
      s'.toPosition.IsBehind z content d config line i) s' z content (faults w) (faults w') := by
  have hcovers := (Zone.covers_iff hd.echoes).2 ⟨line, i, hi, hcontains⟩
  obtain ⟨c, hc⟩ : ∃ c, (Index.ofZone z content d config).closestByOffset? offset = some c := by
    rw [Index.covers, Bool.and_eq_true, decide_eq_true_eq] at hcovers
    exact ⟨_, if_pos hcovers.1⟩
  -- the closest checkpoint by offset is also the one of the line that has the offset
  obtain ⟨hle, hbracket, hclosest⟩ := closest_brackets hd.echoes hi hcontains hc
  have hlt := (List.getElem?_eq_some_iff.1 hi).1
  rw [offsetFrom, hc, hcovers] at h
  cases hmove : s.moveTo source (Index.ofZone z content d config) c.line w with
  | mk moved rest =>
    obtain ⟨s₁, w₁⟩ := rest
    dsimp only at h
    rw [hmove, if_pos rfl] at h
    obtain ⟨hsteady, -, hok | ⟨⟨e, rfl⟩, hw₁⟩⟩ := moveTo_cases hd.echoes hz hsource hs hmove
    · obtain ⟨rfl, hcheckpoint, hbound, hcursor, hw₁⟩ := hok
      rw [hbracket] at hcheckpoint hbound
      rw [hcheckpoint, hclosest] at hcursor
      have hleft : line < c.line + ((Index.ofZone z content d config).lineCount - c.line) := by
        have hcount : (Index.ofZone z content d config).lineCount =
          (z.lines content d config).length := rfl
        omega
      rcases search_cases hd hz hsource hdec hsteady hi hcontains hle hleft hcursor h with
        ⟨rfl, hbehind, hw⟩ | ⟨he, hend, hw⟩
      · have hat := hbehind.isBehind hi hcheckpoint hbound
        exact .inl ⟨rfl, ⟨hbehind.sound hat, hat⟩, by omega⟩
      · exact .inr ⟨he, hend, by omega⟩
    · cases h
      exact .inr ⟨⟨e, rfl⟩, hsteady, hw₁⟩

/-- Seeking to an offset finds the line that it is on, unless it is on none or something fails. -/
theorem byOffset_answers (hs : s.Sound z content d config) {offset : Nat} {w w' : σ} {s' : Seeker}
    {r : Except Error Seek}
    (h : s.byOffset source dec (Index.ofZone z content d config) offset w = (r, s', w')) :
    s'.Sound z content d config ∧
      Answers (z.seekOffset content d config offset) r (faults w) (faults w') := by
  cases hcovers : (Index.ofZone z content d config).covers offset with
  | false =>
    have hnone := Zone.seekOffset_eq_none hd.echoes (Bool.eq_false_iff.1 hcovers)
    rw [byOffset_of_not_covers hcovers] at h
    cases h
    exact ⟨hs.steady.sound_reset, .inr ⟨⟨_, rfl⟩, Nat.le_refl _, fun _ => hnone⟩⟩
  | true =>
    obtain ⟨target, i, hi, hcontains⟩ := (Zone.covers_iff hd.echoes).1 hcovers
    rw [Zone.seekOffset_eq hd.echoes hi hcontains]
    rw [byOffset] at h
    cases hfrom : s.offsetFrom source dec (Index.ofZone z content d config) offset w with
    | mk found rest =>
      obtain ⟨s₁, w₁⟩ := rest
      rw [hfrom] at h
      rcases offsetFrom_cases hd hz hsource hdec hs.steady hi hcontains hfrom with
        ⟨rfl, ⟨hsound, hat⟩, hw⟩ | ⟨⟨e, rfl⟩, hsteady, hw⟩
      · cases h
        exact ⟨hsound, .inl ⟨_, seekLine_of_isBehind hat, rfl, hw⟩⟩
      · cases h
        exact ⟨hsteady.sound_reset, .inr ⟨⟨_, rfl⟩, by omega, fun hquiet => by omega⟩⟩

end Calls

end Seeker
end Disassembly
