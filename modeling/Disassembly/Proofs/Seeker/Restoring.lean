import Disassembly.View

/-! # Coming back to where the seeker stood

Whatever the source and the decoder answer, a seek changes nothing but the position of the seeker. So
one that is put back to a snapshot is as it was when the snapshot was taken, also after an error.
-/

namespace Disassembly

variable {σ : Type} (source : Source σ) (dec : Decoder σ)

namespace Seeker

theorem fetch_stop (offset : Nat) (s : Seeker) (w : σ) :
    (s.fetch source offset w).2.1.stop = s.stop := by
  rw [fetch]
  split <;> rfl

theorem decodeLine_stop (line : Nat) (s : Seeker) (w : σ) :
    (s.decodeLine dec line w).2.1.stop = s.stop := by
  rw [decodeLine]
  split
  · rfl
  · rfl
  · split <;> rfl

theorem step_stop (line : Nat) (s : Seeker) (w : σ) :
    (s.step source dec line w).2.1.stop = s.stop := by
  have hfetch := s.fetch_stop source s.cursor w
  rw [step]
  split
  · split
    · rename_i h
      rwa [h] at hfetch
    · rename_i s' w' h
      rw [h] at hfetch
      exact (s'.decodeLine_stop dec line w').trans hfetch
  · exact s.decodeLine_stop dec line w

theorem steps_stop (more line : Nat) (s : Seeker) (w : σ) :
    (s.steps source dec more line w).2.1.stop = s.stop := by
  induction more generalizing line s w with
  | zero => exact s.step_stop source dec line w
  | succ more ih =>
    have hstep := s.step_stop source dec line w
    rw [steps]
    split
    · rename_i h
      rwa [h] at hstep
    · rename_i s' w' h
      rw [h] at hstep
      exact (ih (line + 1) s' w').trans hstep

theorem moveTo_stop (index : Index) (line : Nat) (s : Seeker) (w : σ) :
    (s.moveTo source index line w).2.1.stop = s.stop := by
  rw [moveTo]
  dsimp only
  split
  · rfl
  · split
    · rename_i h
      exact (congrArg (fun r => r.2.1.stop) h).symm.trans (fetch_stop _ _ _ w)
    · rename_i h
      exact (congrArg (fun r => r.2.1.stop) h).symm.trans (fetch_stop _ _ _ w)

theorem jumpTo_stop (index : Index) (line : Nat) (s : Seeker) (w : σ) :
    (s.jumpTo source dec index line w).2.1.stop = s.stop := by
  have hmove := s.moveTo_stop source index line w
  rw [jumpTo]
  split
  · rename_i h
    rwa [h] at hmove
  · rename_i checkpoint s' w' h
    rw [h] at hmove
    exact (s'.steps_stop source dec _ _ w').trans hmove

theorem lineFrom_stop (index : Index) (line : Nat) (s : Seeker) (w : σ) :
    (s.lineFrom source dec index line w).2.1.stop = s.stop := by
  rw [lineFrom]
  split
  · split
    · rfl
    · split
      · exact s.step_stop source dec line w
      · exact s.jumpTo_stop source dec index line w
  · exact s.jumpTo_stop source dec index line w

theorem byLine_stop (index : Index) (line : Nat) (s : Seeker) (w : σ) :
    (s.byLine source dec index line w).2.1.stop = s.stop := by
  have hfinish : ∀ r : Except Error Instruction × Seeker × σ,
      (finish line r).2.1.stop = r.2.1.stop := by
    intro r
    obtain ⟨e | i, s', w'⟩ := r <;> rfl
  rw [byLine, hfinish]
  split
  · rfl
  · exact s.lineFrom_stop source dec index line w

theorem search_stop (offset left line : Nat) (s : Seeker) (w : σ) :
    (s.search source dec offset left line w).2.1.stop = s.stop := by
  induction left generalizing line s w with
  | zero => rfl
  | succ left ih =>
    have hstep := s.step_stop source dec line w
    rw [search]
    split
    · rename_i h
      rwa [h] at hstep
    · rename_i i s' w' h
      rw [h] at hstep
      split
      · exact hstep
      · exact (ih (line + 1) s' w').trans hstep

theorem offsetFrom_stop (index : Index) (offset : Nat) (s : Seeker) (w : σ) :
    (s.offsetFrom source dec index offset w).2.1.stop = s.stop := by
  rw [offsetFrom]
  split
  · rfl
  · rename_i closest _
    have hmove := s.moveTo_stop source index closest.line w
    split
    · split
      · rename_i h
        rwa [h] at hmove
      · rename_i s' w' h
        rw [h] at hmove
        exact (s'.search_stop source dec _ _ _ w').trans hmove
    · rfl

theorem byOffset_stop (index : Index) (offset : Nat) (s : Seeker) (w : σ) :
    (s.byOffset source dec index offset w).2.1.stop = s.stop := by
  have hfrom := s.offsetFrom_stop source dec index offset w
  rw [byOffset]
  split <;> rename_i h <;> rwa [h] at hfrom

/-- A seeker of the same zone that comes back to a snapshot is the seeker it was taken of. -/
theorem restore_snapshot {s s' : Seeker} (h : s'.stop = s.stop) : s'.restore s.snapshot = s := by
  cases s
  cases s'
  cases h
  rfl

end Seeker

namespace OpenZone

/-- Following a branch changes nothing but the position of the seeker. -/
theorem targetOf_restore (o : OpenZone σ) (arch : Arch) (real : Nat) (w : σ) :
    ∃ seeker, (o.targetOf arch source real w).2.1 = { o with seeker } ∧
      seeker.stop = o.seeker.stop := by
  have hline := o.seeker.byLine_stop source o.decoder o.index real w
  rw [targetOf]
  split
  · rename_i h
    rw [h] at hline
    exact ⟨_, rfl, hline⟩
  · rename_i seek k w₁ h
    rw [h] at hline
    split
    · exact ⟨k, rfl, hline⟩
    · rename_i target _
      have hoffset := k.byOffset_stop source o.decoder o.index target w₁
      split
      · split
        · rename_i h'
          rw [h'] at hoffset
          exact ⟨_, rfl, hoffset.trans hline⟩
        · rename_i h'
          rw [h'] at hoffset
          exact ⟨_, rfl, hoffset.trans hline⟩
      · exact ⟨k, rfl, hline⟩

end OpenZone

namespace View

variable {v : View σ} {o : OpenZone σ}

/-- What an operation goes on with is the zone of the view. -/
theorem ready_of_ensureOpen {v' : View σ} {w w' : σ} (h : v.ensureOpen w = (.ok o, v', w')) :
    v'.status = .ready o := by
  rw [ensureOpen] at h
  split at h
  · cases h
    assumption
  · cases h
  · split at h
    · cases h
      rfl
    · cases h

theorem keep_restored (h : v.status = .ready o) {seeker : Seeker}
    (hstop : seeker.stop = o.seeker.stop) :
    v.keep { o with seeker := seeker.restore o.seeker.snapshot } = v := by
  rw [keep, Seeker.restore_snapshot hstop, ← h]

/-- Following a branch opens the zone, and leaves no other trace, whether it is found or not. -/
theorem follow_view (line : Nat) (v : View σ) (w : σ) :
    (v.follow line w).2.1 = (v.ensureOpen w).2.1 := by
  rw [follow]
  cases hopen : v.ensureOpen w with
  | mk r rest =>
    obtain ⟨v', w'⟩ := rest
    cases r with
    | error e => rfl
    | ok o =>
      have hready := ready_of_ensureOpen hopen
      dsimp only
      split
      · rfl
      · rfl
      · rename_i real _
        obtain ⟨seeker, htarget, hstop⟩ := o.targetOf_restore v'.source v'.zone.arch real w'
        dsimp only
        rw [htarget]
        exact keep_restored hready hstop

theorem lineOfOffset_view (offset : Nat) (v : View σ) (w : σ) :
    (v.lineOfOffset offset w).2.1 = (v.ensureOpen w).2.1 := by
  rw [lineOfOffset]
  cases hopen : v.ensureOpen w with
  | mk r rest =>
    obtain ⟨v', w'⟩ := rest
    cases r with
    | error e => rfl
    | ok o =>
      exact keep_restored (ready_of_ensureOpen hopen)
        (Seeker.byOffset_stop v'.source o.decoder o.index offset o.seeker w')

end View
end Disassembly
