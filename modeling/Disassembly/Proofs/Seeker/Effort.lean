import Disassembly.Proofs.Index.Spacing
import Disassembly.Proofs.Seeker.Session

/-! # What a seek costs

The work of a seek is what it decodes, since a call of the decoder is made for each line on the way
and for nothing else. From a checkpoint these are the lines up to the one that is found, less than a
span of them. A line that was found last costs nothing, and the one behind it a single call: either
the cursor is there, or it is the line of a checkpoint.
-/

namespace Disassembly

variable {σ : Type}

def Decoder.counted (dec : Decoder σ) : Decoder (σ × Nat) where
  decode code address w :=
    let (r, w') := dec.decode code address w.1
    (r, w', w.2 + 1)

def Source.uncounted (source : Source σ) : Source (σ × Nat) where
  size := source.size
  read offset length w :=
    let (r, w') := source.read offset length w.1
    (r, w', w.2)

/-- Each call of the decoder adds one to `calls`. -/
def Decoder.CountedBy (dec : Decoder σ) (calls : σ → Nat) : Prop :=
  ∀ {code : Code} {address : Nat} {w w' : σ} {r : Except Error (Option Instruction)},
    dec.decode code address w = (r, w') → calls w' = calls w + 1

def Source.Keeps (source : Source σ) (calls : σ → Nat) : Prop :=
  ∀ {offset length : Nat} {w w' : σ} {r : Except Error (Array UInt8)},
    source.read offset length w = (r, w') → calls w' = calls w

theorem Decoder.counted_countedBy (dec : Decoder σ) : dec.counted.CountedBy Prod.snd := by
  intro code address w w' r h
  cases h
  rfl

theorem Source.uncounted_keeps (source : Source σ) : source.uncounted.Keeps Prod.snd := by
  intro offset length w w' r h
  cases h
  rfl

theorem Decoder.Follows.counted {dec : Decoder σ} {d : Decoding} {faults : σ → Nat}
    (h : dec.Follows d faults) : dec.counted.Follows d (faults ∘ Prod.fst) where
  decode_cases {code address w w' r} hr := by
    cases hr
    exact h.decode_cases rfl

theorem Source.Serves.uncounted {source : Source σ} {content : Array UInt8} {faults : σ → Nat}
    (h : source.Serves content faults) : source.uncounted.Serves content (faults ∘ Prod.fst) where
  size_eq := h.size_eq
  faults_le {offset length w w' r} hr := by
    cases hr
    exact h.faults_le rfl
  read_cases {offset length w w' r} hrange hr := by
    cases hr
    exact h.read_cases hrange rfl

namespace Seeker

/-- The seeker has last found `i`, on `line`, and it took `n` calls to get there. -/
structure Reached (s : Seeker) (line : Nat) (i : Instruction) (n before after : Nat) : Prop where
  current_eq : s.current = some (line, i)
  calls_eq : after = before + n

section Calls

variable {source : Source σ} {dec : Decoder σ} {calls : σ → Nat} {index : Index} {s s' : Seeker}
  {w w' : σ}

theorem lineFrom_of_byLine {line : Nat} {seek : Seek}
    (h : s.byLine source dec index line w = (.ok seek, s', w')) :
    s.lineFrom source dec index line w = (.ok seek.instruction, s', w') := by
  rw [byLine] at h
  split at h
  · cases h
  · generalize s.lineFrom source dec index line w = found at h
    obtain ⟨r, s₁, w₁⟩ := found
    cases r <;> cases h
    rfl

theorem calls_of_fetch (hsource : source.Keeps calls) {offset : Nat} {r : Except Error Unit}
    (h : s.fetch source offset w = (r, s', w')) : calls w' = calls w := by
  rw [fetch] at h
  split at h <;> cases h <;> exact hsource ‹_›

theorem decodeLine_reached (hdec : dec.CountedBy calls) {line : Nat} {i : Instruction}
    (h : s.decodeLine dec line w = (.ok i, s', w')) :
    s'.Reached line i 1 (calls w) (calls w') := by
  rw [decodeLine] at h
  split at h
  · cases h
  · cases h
  · rename_i hr
    split at h <;> cases h
    exact ⟨rfl, hdec hr⟩

variable (hsource : source.Keeps calls) (hdec : dec.CountedBy calls)

include hsource

theorem calls_of_moveTo {line : Nat} {c : Checkpoint}
    (h : s.moveTo source index line w = (.ok c, s', w')) :
    c = index.closestByLine line ∧ calls w' = calls w := by
  rw [moveTo_eq] at h
  split at h
  · cases h
    exact ⟨rfl, rfl⟩
  · split at h
    · cases h
    · rename_i hfetch
      cases h
      exact ⟨rfl, calls_of_fetch hsource hfetch⟩

include hdec

theorem step_reached {line : Nat} {i : Instruction}
    (h : s.step source dec line w = (.ok i, s', w')) :
    s'.Reached line i 1 (calls w) (calls w') := by
  rw [step] at h
  split at h
  · split at h
    · cases h
    · rename_i hfetch
      rw [← calls_of_fetch hsource hfetch]
      exact decodeLine_reached hdec h
  · exact decodeLine_reached hdec h

theorem steps_reached {more line : Nat} {i : Instruction}
    (h : s.steps source dec more line w = (.ok i, s', w')) :
    s'.Reached (line + more) i (more + 1) (calls w) (calls w') := by
  induction more generalizing line s w with
  | zero => exact step_reached hsource hdec h
  | succ more ih =>
    rw [steps] at h
    split at h
    · cases h
    · rename_i hstep
      have hfirst := (step_reached hsource hdec hstep).calls_eq
      have hrest := ih h
      rw [Nat.add_assoc, Nat.add_comm 1 more] at hrest
      have hcalls := hrest.calls_eq
      exact ⟨hrest.current_eq, by omega⟩

/-- A search takes a call for each line up to the one that it finds. -/
theorem search_reached {offset left line : Nat} {seek : Seek}
    (h : s.search source dec offset left line w = (.ok seek, s', w')) :
    line ≤ seek.line ∧
      s'.Reached seek.line seek.instruction (seek.line - line + 1) (calls w) (calls w') := by
  induction left generalizing line s w with
  | zero => cases h
  | succ left ih =>
    rw [search] at h
    split at h
    · cases h
    · rename_i hstep
      have hfirst := step_reached hsource hdec hstep
      split at h
      · cases h
        have hself : line - line + 1 = 1 := by omega
        exact ⟨Nat.le_refl line, hfirst.current_eq, by rw [found, hself]; exact hfirst.calls_eq⟩
      · obtain ⟨hle, hrest⟩ := ih h
        have hcalls := hfirst.calls_eq
        have hcalls' := hrest.calls_eq
        exact ⟨by omega, hrest.current_eq, by omega⟩

theorem jumpTo_reached {line : Nat} {i : Instruction}
    (h : s.jumpTo source dec index line w = (.ok i, s', w')) :
    s'.Reached line i (line - (index.closestByLine line).line + 1) (calls w) (calls w') := by
  have hle : (index.closestByLine line).line ≤ line := (index.bracketLine_splits line).2.1
  rw [jumpTo] at h
  split at h
  · cases h
  · rename_i hmove
    obtain ⟨rfl, hcalls⟩ := calls_of_moveTo hsource hmove
    have hsteps := steps_reached hsource hdec h
    rw [hcalls, Nat.add_sub_cancel' hle] at hsteps
    exact hsteps

theorem lineFrom_reached {line : Nat} {i : Instruction}
    (h : s.lineFrom source dec index line w = (.ok i, s', w')) :
    ∃ n ≤ line - (index.closestByLine line).line + 1,
      s'.Reached line i n (calls w) (calls w') := by
  rw [lineFrom] at h
  split at h
  · rename_i here j hcurrent
    split at h
    · rename_i hhere
      cases h
      exact ⟨0, Nat.zero_le _, hhere ▸ hcurrent, rfl⟩
    · split at h
      · exact ⟨1, Nat.le_add_left 1 _, step_reached hsource hdec h⟩
      · exact ⟨_, Nat.le_refl _, jumpTo_reached hsource hdec h⟩
  · exact ⟨_, Nat.le_refl _, jumpTo_reached hsource hdec h⟩

theorem byLine_reached {line : Nat} {seek : Seek}
    (h : s.byLine source dec index line w = (.ok seek, s', w')) :
    ∃ n ≤ line - (index.closestByLine line).line + 1,
      s'.Reached line seek.instruction n (calls w) (calls w') :=
  lineFrom_reached hsource hdec (lineFrom_of_byLine h)

theorem byOffset_reached {offset : Nat} {seek : Seek}
    (h : s.byOffset source dec index offset w = (.ok seek, s', w')) :
    ∃ c, index.closestByOffset? offset = some c ∧ c.line ≤ seek.line ∧
      s'.Reached seek.line seek.instruction (seek.line - c.line + 1) (calls w) (calls w') := by
  rw [byOffset] at h
  split at h
  · rename_i hfrom
    cases h
    rw [offsetFrom] at hfrom
    split at hfrom
    · cases hfrom
    · rename_i c hc
      split at hfrom
      · split at hfrom
        · cases hfrom
        · rename_i hmove
          rw [← (calls_of_moveTo hsource hmove).2]
          exact ⟨c, hc, search_reached hsource hdec hfrom⟩
      · cases hfrom
  · cases h

end Calls

/-- From where a seek has ended, the same line is found again without a call or a change, and the
line behind it, if there is one, by a single call. -/
structure GoesOn (s : Seeker) (source : Source σ) (dec : Decoder σ) (faults calls : σ → Nat)
    (index : Index) (seek : Seek) (w : σ) : Prop where
  again : s.byLine source dec index seek.line w = (.ok seek, s, w)
  next : ∀ r s' w', seek.line + 1 < index.lineCount →
    s.byLine source dec index (seek.line + 1) w = (r, s', w') → faults w' = faults w →
    (∃ seek', r = .ok seek' ∧ seek'.line = seek.line + 1) ∧ calls w' = calls w + 1

/-- Every seek that succeeds in the world `w` ends less than `span` lines behind the checkpoint that
it is closest to, after no more calls of the decoder than there are lines from there, and can be gone
on from. -/
structure SeeksCheaply (s : Seeker) (source : Source σ) (dec : Decoder σ) (faults calls : σ → Nat)
    (index : Index) (span : Nat) (w : σ) : Prop where
  byLine_ok : ∀ line seek s' w', s.byLine source dec index line w = (.ok seek, s', w') →
    seek.distance < span ∧ calls w' ≤ calls w + (seek.distance + 1) ∧
      s'.GoesOn source dec faults calls index seek w'
  byOffset_ok : ∀ offset seek s' w', s.byOffset source dec index offset w = (.ok seek, s', w') →
    seek.distance < span ∧ calls w' = calls w + (seek.distance + 1) ∧
      s'.GoesOn source dec faults calls index seek w'

section Sound

variable {z : Zone} {content : Array UInt8} {d : Decoding} {config : Config} {source : Source σ}
  {dec : Decoder σ} {faults calls : σ → Nat} {s : Seeker}

/-- Behind the line that was found last, the next one is where the cursor is, or at a checkpoint. -/
theorem Sound.next_reached (hd : d.Echoes) (hsource : source.Keeps calls)
    (hdec : dec.CountedBy calls) (hs : s.Sound z content d config) {line : Nat} {i j : Instruction}
    (hcurrent : s.current = some (line, i))
    (hnext : line + 1 < (Index.ofZone z content d config).lineCount) {w w' : σ} {s' : Seeker}
    (h : s.lineFrom source dec (Index.ofZone z content d config) (line + 1) w = (.ok j, s', w')) :
    calls w' = calls w + 1 := by
  have hat := hs.position.current_behind line i hcurrent
  rw [lineFrom, hcurrent] at h
  dsimp only at h
  rw [if_neg (by omega)] at h
  by_cases hbound : line + 1 < s.bound
  · rw [if_pos ⟨rfl, hbound⟩] at h
    exact (step_reached hsource hdec h).calls_eq
  · rw [if_neg (by simp [hbound])] at h
    obtain ⟨hsplits, -, hbehind⟩ := (Index.ofZone z content d config).bracketLine_splits line
    -- the bound is not the end of the lines, so it is the line of the next checkpoint
    rw [hat.bound_eq, Index.boundOf] at hbound
    cases hhead : ((Index.ofZone z content d config).bracketLine line).2.head? with
    | none =>
      rw [hhead] at hbound
      exact absurd hnext hbound
    | some b =>
      rw [hhead] at hbound
      have hline : b.line = line + 1 := by
        have hlt : line < b.line := hbehind b hhead
        have hle : b.line ≤ line + 1 := Nat.le_of_not_lt hbound
        omega
      have hmem := hsplits.mem_of_next hhead
      have hordered := @Index.checkpoints_pairwise z content d config hd
      have hclosest := ((Index.findsClosest hordered).byLine_iff (line + 1) _).1 rfl
      have hge := hclosest.greatest b hmem (Nat.le_of_eq hline)
      have hjump := (jumpTo_reached hsource hdec h).calls_eq
      have hzero :
          line + 1 - ((Index.ofZone z content d config).closestByLine (line + 1)).line = 0 := by
        omega
      rwa [hzero] at hjump

variable (hd : d.Regular) (hz : z.LiesIn content) (hsource : source.Serves content faults)
  (hdec : dec.Follows d faults) (hkeeps : source.Keeps calls) (hcounted : dec.CountedBy calls)

include hd hz hsource hdec hkeeps hcounted

/-- A sound seeker that has found a line last can go on from it. -/
theorem Sound.goesOn (hs : s.Sound z content d config) {line : Nat} {i : Instruction}
    (hcurrent : s.current = some (line, i)) (w : σ) :
    s.GoesOn source dec faults calls (Index.ofZone z content d config)
      ((Index.ofZone z content d config).seekOn line i) w where
  again := by
    have hat := hs.position.current_behind line i hcurrent
    have hlt := Zone.lt_lineCount hat.line_eq
    have hfound : s.found line i = (Index.ofZone z content d config).seekOn line i := by
      have hseek := seekLine_of_isBehind hat
      rw [Zone.seekLine, hat.line_eq] at hseek
      exact (Option.some.inj hseek).symm
    change s.byLine source dec _ line w = _
    rw [byLine, if_neg (Nat.not_le.2 hlt), lineFrom, hcurrent]
    dsimp only
    rw [if_pos rfl, finish, hfound]
  next r s' w' hnext h hquiet := by
    change line + 1 < _ at hnext
    have hi := List.getElem?_eq_getElem
      (show line + 1 < (z.lines content d config).length from hnext)
    obtain ⟨-, hanswers⟩ := byLine_answers hd hz hsource hdec hs h
    have hok := hanswers.eq_ok hquiet (Zone.seekLine_eq_some_iff.2 ⟨_, hi, rfl⟩)
    rw [hok] at h
    exact ⟨⟨_, hok, rfl⟩,
      hs.next_reached hd.echoes hkeeps hcounted hcurrent hnext (lineFrom_of_byLine h)⟩

theorem Sound.seeksCheaply (hs : s.Sound z content d config) (w : σ) :
    s.SeeksCheaply source dec faults calls (Index.ofZone z content d config)
      (max config.checkpointSpan 1) w where
  byLine_ok line seek s' w' h := by
    obtain ⟨hsound, hanswers⟩ := byLine_answers hd hz hsource hdec hs h
    obtain ⟨i, hi, rfl⟩ := Zone.seekLine_eq_some_iff.1 (hanswers.want_eq rfl)
    obtain ⟨n, hn, hreached⟩ := byLine_reached hkeeps hcounted h
    refine ⟨Index.distance_lt hd.echoes (Zone.lt_lineCount hi), ?_,
      hsound.goesOn hd hz hsource hdec hkeeps hcounted hreached.current_eq w'⟩
    rw [hreached.calls_eq]
    exact Nat.add_le_add_left hn _
  byOffset_ok offset seek s' w' h := by
    obtain ⟨hsound, hanswers⟩ := byOffset_answers hd hz hsource hdec hs h
    obtain ⟨line, i, hi, hcontains, rfl⟩ :=
      (Zone.seekOffset_eq_some_iff hd.echoes).1 (hanswers.want_eq rfl)
    obtain ⟨c, hc, -, hreached⟩ := byOffset_reached hkeeps hcounted h
    refine ⟨Index.distance_lt hd.echoes (Zone.lt_lineCount hi), ?_,
      hsound.goesOn hd hz hsource hdec hkeeps hcounted hreached.current_eq w'⟩
    -- the checkpoint closest to the offset is the one closest to the line
    obtain ⟨-, -, hclosest⟩ := closest_brackets hd.echoes hi hcontains hc
    rw [hreached.calls_eq, ← hclosest]
    rfl

end Sound

end Seeker

section Effort

variable {σ₀ : Type} {z : Zone} {content : Array UInt8} {d : Decoding} {config : Config}
  {source₀ : Source σ₀} {dec₀ : Decoder σ₀} {faults₀ : σ₀ → Nat} {source : Source σ}
  {dec : Decoder σ} {faults : σ → Nat}

/-- With an index that was built while nothing failed, the closest checkpoints are found, and seeks
are cheap after any requests, whatever has failed meanwhile. -/
theorem Seeker.Session.run_seeksCheaply (hz : z.fault? = none) (hsize : z.stop ≤ content.size)
    (hd : d.Regular) (hsource₀ : source₀.Serves content faults₀)
    (hdec₀ : dec₀.Follows d faults₀) {index : Index} {w₀ w₁ : σ₀}
    (hbuild : Index.build z source₀ dec₀ config w₀ = (.ok index, w₁))
    (hquiet : faults₀ w₁ = faults₀ w₀) (hsource : source.Serves content faults)
    (hdec : dec.Follows d faults) (requests : List Request) (w : σ) :
    index.FindsClosest ∧
      (run source.uncounted dec.counted index requests { seeker := .start z.stop }
          (w, 0)).1.seeker.SeeksCheaply source.uncounted dec.counted (faults ∘ Prod.fst) Prod.snd
        index (max config.checkpointSpan 1)
        (run source.uncounted dec.counted index requests { seeker := .start z.stop } (w, 0)).2 := by
  obtain rfl := Index.eq_ofZone_of_build hz hsize hd.echoes hsource₀ hdec₀ hbuild hquiet
  have hlies : z.LiesIn content := ⟨hz, hsize⟩
  have hstart : (Session.mk (.start z.stop) []).Sound z content d config := start_sound
  have hsound := run_sound hd hlies hsource.uncounted hdec.counted hstart requests (w, 0)
  exact ⟨Index.findsClosest (Index.checkpoints_pairwise hd.echoes),
    hsound.seeker.seeksCheaply hd hlies hsource.uncounted hdec.counted source.uncounted_keeps
      dec.counted_countedBy _⟩

/-- With a checkpoint on every line, after a read that fails. -/
theorem Seeker.Session.run_seeksCheaply_interrupted :
    (Index.ofZone Index.paddedZone Index.paddedCode Decoding.zerosAsFiller
        { checkpointSpan := 1 }).FindsClosest ∧
      (run (Source.interrupted Index.paddedCode).uncounted Decoding.zerosAsFiller.interrupted.counted
          (Index.ofZone Index.paddedZone Index.paddedCode Decoding.zerosAsFiller
            { checkpointSpan := 1 })
          [.byOffset 3, .snapshot, .byLine 1, .restore 0]
          { seeker := .start Index.paddedZone.stop }
          ({ plan := [true] }, 0)).1.seeker.SeeksCheaply
        (Source.interrupted Index.paddedCode).uncounted Decoding.zerosAsFiller.interrupted.counted
        (Interruptions.count ∘ Prod.fst) Prod.snd
        (Index.ofZone Index.paddedZone Index.paddedCode Decoding.zerosAsFiller
          { checkpointSpan := 1 }) (max 1 1)
        (run (Source.interrupted Index.paddedCode).uncounted
          Decoding.zerosAsFiller.interrupted.counted
          (Index.ofZone Index.paddedZone Index.paddedCode Decoding.zerosAsFiller
            { checkpointSpan := 1 })
          [.byOffset 3, .snapshot, .byLine 1, .restore 0]
          { seeker := .start Index.paddedZone.stop } ({ plan := [true] }, 0)).2 := by
  have hregular := Decoding.zerosAsFiller_regular
  have hbuild := @Index.build_of_quiet Unit _ (Source.ofBytes Index.paddedCode) _ noFaults
    Index.paddedCode Index.paddedZone { checkpointSpan := 1 } (by decide) (by decide)
    hregular.echoes (Source.ofBytes_serves Index.paddedCode)
    Decoding.zerosAsFiller.decoder_follows () rfl
  exact run_seeksCheaply (by decide) (by decide) hregular (Source.ofBytes_serves Index.paddedCode)
    Decoding.zerosAsFiller.decoder_follows (Prod.ext hbuild rfl) rfl
    (Source.interrupted_serves Index.paddedCode) Decoding.zerosAsFiller.interrupted_follows _ _

end Effort
end Disassembly
