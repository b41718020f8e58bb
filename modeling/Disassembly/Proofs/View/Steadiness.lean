import Disassembly.Proofs.View.Labelling
import Disassembly.Proofs.View.Operations

/-! # Views over a file that may fail

Reads may fail at any time. Lines are then shown as failed, and previews and targets are missing, but
nothing that later operations rely on breaks: an open zone keeps a sound seeker and sound levels, which
have all labels or none.
-/

namespace Disassembly

variable {σ : Type} {faults : σ → Nat} {c : Scene}

/-- What an open zone keeps whatever fails. -/
structure OpenZone.Steady (o : OpenZone σ) (c : Scene) (faults : σ → Nat) : Prop where
  lies : c.zone.LiesIn c.content
  decoder : o.decoder.Answers c.decoding faults
  index_eq : o.index = c.index
  seeker : o.seeker.Sound c.zone c.content c.decoding c.config
  levels : o.levels.Sound
  root_eq : o.levels.root = (c.levels o.scanned).root

namespace Enricher

variable {x : Enricher σ} {k : Seeker}

/-- Looking for a line puts the seeker back where it was. -/
theorem targetLine_sound (hd : c.decoding.Regular) (hz : c.zone.LiesIn c.content)
    (hsource : x.source.Serves c.content faults) (hdec : x.decoder.Follows c.decoding faults)
    (hindex : x.index = c.index) (hk : k.Sound c.zone c.content c.decoding c.config) (value : Nat)
    (w : σ) : (x.targetLine value k w).2.1.Sound c.zone c.content c.decoding c.config := by
  rw [targetLine, hindex]
  split
  · cases hseek : k.byOffset x.source x.decoder c.index value w with
    | mk r rest =>
      obtain ⟨k', w'⟩ := rest
      have hk' := (Seeker.byOffset_answers hd hz hsource hdec hk hseek).1
      cases r <;> exact ⟨hk'.stop_eq, hk.position⟩
  · exact hk

theorem branch_sound (hd : c.decoding.Regular) (hz : c.zone.LiesIn c.content)
    (hsource : x.source.Serves c.content faults) (hdec : x.decoder.Follows c.decoding faults)
    (hindex : x.index = c.index) (hk : k.Sound c.zone c.content c.decoding c.config) (line : Line)
    (value : Nat) (n : Notes) (w : σ) :
    (x.branch line value n k w).2.2.1.Sound c.zone c.content c.decoding c.config := by
  rw [branch]
  dsimp only
  split
  · exact hk
  · exact targetLine_sound hd hz hsource hdec hindex hk value w

theorem enrich_sound (hd : c.decoding.Regular) (hz : c.zone.LiesIn c.content)
    (hsource : x.source.Serves c.content faults) (hdec : x.decoder.Follows c.decoding faults)
    (hindex : x.index = c.index) (hk : k.Sound c.zone c.content c.decoding c.config)
    (number : Nat) (i : Instruction) (n : Notes) (w : σ) :
    (x.enrich number i n k w).2.2.1.Sound c.zone c.content c.decoding c.config := by
  rw [enrich]
  dsimp only
  split
  · exact branch_sound hd hz hsource hdec hindex hk _ _ n w
  · exact branch_sound hd hz hsource hdec hindex hk _ _ n w
  · exact hk
  · exact hk

end Enricher

namespace OpenZone

variable {o : OpenZone σ} {source : Source σ}

theorem Steady.update (ho : o.Steady c faults) {levels : Levels} {seeker : Seeker}
    (hlevels : levels.Sound) (hroot : levels.root = o.levels.root)
    (hseeker : seeker.Sound c.zone c.content c.decoding c.config) (notes : Notes)
    (window : Option RenderedWindow) :
    ({ o with levels, seeker, notes, window } : OpenZone σ).Steady c faults where
  lies := ho.lies
  decoder := ho.decoder
  index_eq := ho.index_eq
  seeker := hseeker
  levels := hlevels
  root_eq := hroot.trans ho.root_eq

theorem Steady.resolve (ho : o.Steady c faults) (number : Nat) :
    (o.levels.resolve number).2.Sound ∧ (o.levels.resolve number).2.root = o.levels.root := by
  refine ⟨?_, o.levels.resolve_root number⟩
  by_cases hnumber : number < o.levels.size
  · exact (ho.levels.resolve hnumber).2
  · rw [Levels.resolve, if_pos (Nat.le_of_not_lt hnumber)]
    exact ho.levels

theorem Steady.byLine (hd : c.decoding.Regular) (hsource : source.Serves c.content faults)
    (ho : o.Steady c faults) (line : Nat) (w : σ) :
    (o.seeker.byLine source o.decoder o.index line w).2.1.Sound c.zone c.content c.decoding
      c.config := by
  rw [ho.index_eq]
  exact (Seeker.byLine_answers hd ho.lies hsource ho.decoder.follows ho.seeker rfl).1

theorem fresh_steady (hz : c.zone.LiesIn c.content) {decoder : Decoder σ}
    (hdec : decoder.Answers c.decoding faults) :
    (fresh c.zone decoder c.index).Steady c faults where
  lies := hz
  decoder := hdec
  index_eq := rfl
  seeker := ⟨rfl, nofun, nofun⟩
  levels := Levels.start_sound c.index.lineCount
  root_eq := rfl

/-- How a scan of an open zone may end. Where the labels have been looked for, nothing is done. Else
the scan finds them, or leaves none if something fails on the way. -/
inductive ScanEnds (c : Scene) (faults : σ → Nat) (o : OpenZone σ) (w w' : σ) :
    Except Error Nat → OpenZone σ → Prop
  | again (hon : o.scanned = true) : ScanEnds c faults o w w' (.ok 0) o
  | found {o' : OpenZone σ} (hoff : o.scanned = false) (hon : o'.scanned = true) :
      ScanEnds c faults o w w' (.ok c.targets.length) o'
  | failed (e : Error) (seeker : Seeker) (hoff : o.scanned = false) (hlt : faults w < faults w') :
      ScanEnds c faults o w w' (.error e) { o with levels := .start o.index.lineCount, seeker }

/-- Before the labels have been looked for, the lines are the instructions. -/
theorem Steady.models_plain (ho : o.Steady c faults) (hoff : o.scanned = false) :
    o.levels.Models c.index.lineCount ((List.range c.index.lineCount).map .instruction) := by
  have hroot := ho.root_eq
  rw [hoff] at hroot
  exact Scene.models_of_root_eq (Levels.start_models c.index.lineCount) ho.levels hroot

theorem Steady.labelled (hd : c.decoding.Regular) (ho : o.Steady c faults)
    (hon : o.scanned = true) : o.levels.Labelled c.zone c.index c.instructions := by
  have hroot := ho.root_eq
  rw [hon] at hroot
  have hlabelled := Scene.labelled_targets hd ho.lies (Levels.start_models c.index.lineCount)
  exact Scene.labelled_of_models hd.echoes (Scene.models_of_root_eq hlabelled ho.levels hroot)

/-- After a scan the zone is steady again. -/
theorem scan_cases (hd : c.decoding.Regular) (hsource : source.Serves c.content faults)
    (ho : o.Steady c faults) {w w' : σ} {r : Except Error Nat} {o' : OpenZone σ}
    (h : o.scan c.zone source w = (r, o', w')) :
    o'.Steady c faults ∧ o.ScanEnds c faults w w' r o' := by
  rw [scan] at h
  by_cases hon : o.scanned = true
  · rw [if_pos hon] at h
    cases h
    exact ⟨ho, .again hon⟩
  · have hoff : o.scanned = false := Bool.eq_false_iff.2 hon
    have hroot : o.levels.root = (Levels.start c.index.lineCount).root := by
      rw [ho.root_eq, hoff]
      rfl
    have hmodels := ho.models_plain hoff
    -- levels that have labels are not scanned
    have hcount : o.levels.labelCount = 0 := by
      rw [Levels.labelCount, hroot]
      rfl
    rw [if_neg hon] at h
    cases hscan : o.levels.scan c.zone source o.decoder o.index o.seeker w with
    | mk r₁ rest =>
      obtain ⟨s, k, w₁⟩ := rest
      rw [hscan] at h
      rw [ho.index_eq] at hscan
      obtain ⟨hk, -, ⟨rfl, rfl⟩ | ⟨⟨e, rfl⟩, hw⟩⟩ := Scene.scan_cases hd ho.lies hsource
        ho.decoder.follows ho.decoder.follows_noFaults ho.seeker hmodels hcount hscan
      · cases h
        obtain ⟨flat, hflat⟩ := c.labelled_models hmodels 0 c.targets
        refine ⟨?_, .found hoff rfl⟩
        exact {
          lies := ho.lies
          decoder := ho.decoder
          index_eq := ho.index_eq
          seeker := hk
          levels := hflat.sound
          root_eq := c.labelled_root hroot 0 c.targets }
      · cases h
        refine ⟨?_, .failed e _ hoff hw⟩
        exact {
          lies := ho.lies
          decoder := ho.decoder
          index_eq := ho.index_eq
          seeker := hk.steady.sound_reset
          levels := Levels.start_sound _
          root_eq := by
            rw [hoff, ho.index_eq]
            rfl }

end OpenZone
end Disassembly
