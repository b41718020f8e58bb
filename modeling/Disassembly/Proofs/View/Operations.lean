import Disassembly.Proofs.Seeker.Restoring
import Disassembly.Proofs.View.Rendering

/-! # What a view is asked for

A view agrees with its scene once it has been opened, and every operation keeps it so. Only rendering
adds to what has been shown, and only looking for the labels takes it back.
-/

namespace Disassembly

variable {σ : Type}

namespace OpenZone

variable {o : OpenZone σ} {c : Scene} {shown : List Nat} {source : Source σ}

theorem Agrees.again (ho : o.Agrees c shown) {more : List Nat} (h : ∀ k ∈ more, k ∈ shown) :
    o.Agrees c (shown ++ more) :=
  ho.update ho.levels rfl ho.seeker (ho.notes.again h) (List.subset_append_left shown more)

def fresh (z : Zone) (decoder : Decoder σ) (index : Index) : OpenZone σ where
  decoder := decoder
  index := index
  seeker := .start z.stop
  levels := .start index.lineCount

theorem fresh_agrees (hz : c.zone.LiesIn c.content) {decoder : Decoder σ}
    (hdec : decoder.Follows c.decoding noFaults) : (fresh c.zone decoder c.index).Agrees c [] where
  lies := hz
  decoder := hdec
  index_eq := rfl
  seeker := ⟨rfl, nofun, nofun⟩
  levels := Levels.start_sound c.index.lineCount
  root_eq := rfl
  notes := Notes.Records.empty c false
  window_eq := nofun
  window_shown := nofun

/-- A scan succeeds. If the labels had not been looked for, nothing has been shown since. -/
theorem scan_agrees (hd : c.decoding.Regular) (hsource : source.Serves c.content noFaults)
    (ho : o.Agrees c shown) (w : σ) :
    ∃ o' w', o.scan c.zone source w =
        (.ok (if o.scanned then 0 else c.targets.length), o', w') ∧ o'.scanned = true ∧
      o'.Agrees c (if o.scanned then shown else []) := by
  rw [scan]
  cases hscanned : o.scanned with
  | true => exact ⟨o, w, rfl, hscanned, ho⟩
  | false =>
    obtain ⟨s', k', w', hscan, hs', hroot, hk'⟩ := Scene.scan_eq hd ho.lies hsource ho.decoder
      ho.seeker ho.levels (hscanned ▸ ho.root_eq) w
    rw [ho.index_eq, if_neg Bool.false_ne_true, hscan]
    exact ⟨_, w', rfl, rfl, {
      lies := ho.lies
      decoder := ho.decoder
      index_eq := rfl
      seeker := hk'
      levels := hs'
      root_eq := hroot
      notes := Notes.Records.empty c true
      window_eq := nofun
      window_shown := nofun }⟩

end OpenZone

namespace View

variable {v : View σ} {c : Scene} {shown : List Nat}

theorem mem_of_cached? {o : OpenZone σ} {start count : Nat} {lines : List Line}
    (h : cached? start count o = some lines) :
    ∃ u ∈ o.window, u.start = start ∧ u.count = count ∧ u.lines = lines := by
  rw [cached?] at h
  split at h
  · rename_i u hu
    split at h
    · rename_i hsame
      exact ⟨u, hu, hsame.1, hsame.2, Option.some.inj h⟩
    · cases h
  · cases h

theorem IsOf.with_status (hv : v.IsOf c) (status : ViewStatus σ) :
    ({ v with status } : View σ).IsOf c :=
  ⟨hv.zone_eq, hv.config_eq, hv.env_eq, hv.source, hv.decoder⟩

/-- A zone that opens has a decoder and an index. It is fresh, or what a scan has left of a fresh one
if the settings ask for that. -/
theorem openZone_cases {o : OpenZone σ} {w w' : σ} (h : v.openZone w = (.ok o, w')) :
    ∃ decoder w₁ index w₂,
      v.instructionSet.openDecoder v.zone.arch w = (.ok decoder, w₁) ∧
      Index.build v.zone v.source decoder v.config w₁ = (.ok index, w₂) ∧
      ((v.config.scanOnStart = false ∧ o = .fresh v.zone decoder index) ∨
        (v.config.scanOnStart = true ∧
          ∃ r, (OpenZone.fresh v.zone decoder index).scan v.zone v.source w₂ = (r, o, w'))) := by
  rw [openZone] at h
  split at h
  · cases h
  · cases hopen : v.instructionSet.openDecoder v.zone.arch w with
    | mk r w₁ =>
      rw [hopen] at h
      cases r with
      | error e => cases h
      | ok decoder =>
        dsimp only at h
        cases hbuild : Index.build v.zone v.source decoder v.config w₁ with
        | mk r w₂ =>
          rw [hbuild] at h
          cases r with
          | error e => cases h
          | ok index =>
            refine ⟨decoder, w₁, index, w₂, rfl, hbuild, ?_⟩
            dsimp only at h
            split at h
            · rename_i hstart
              cases h
              exact .inr ⟨hstart, _, rfl⟩
            · rename_i hstart
              cases h
              exact .inl ⟨Bool.eq_false_iff.2 hstart, rfl⟩

theorem openZone_agrees (hv : v.IsOf c) (hd : c.decoding.Regular) {o : OpenZone σ} {w w' : σ}
    (h : v.openZone w = (.ok o, w')) : o.scanned = c.config.scanOnStart ∧ o.Agrees c [] := by
  obtain ⟨decoder, w₁, index, w₂, hopen, hbuild, hends⟩ := openZone_cases h
  rw [hv.zone_eq] at hopen
  rw [hv.zone_eq, hv.config_eq] at hbuild
  rw [hv.zone_eq, hv.config_eq] at hends
  have hdec := hv.decoder _ _ _ hopen
  have hz := Index.liesIn_of_build hv.source hbuild
  obtain rfl : index = c.index := Index.eq_ofZone_of_build hz.fault?_eq hz.stop_le hd.echoes
    hv.source hdec hbuild rfl
  have ho := OpenZone.fresh_agrees hz hdec
  rcases hends with ⟨hstart, rfl⟩ | ⟨hstart, r, hscan⟩
  · exact ⟨hstart.symm, ho⟩
  · obtain ⟨o', w₃, hscan', hscanned, ho'⟩ := OpenZone.scan_agrees hd hv.source ho w₂
    rw [hscan'] at hscan
    cases hscan
    exact ⟨hscanned.trans hstart.symm, ho'⟩

/-- A zone that is in the file opens, if there is a decoder for it. -/
theorem exists_openZone (hv : v.IsOf c) (hd : c.decoding.Regular) (hz : c.zone.LiesIn c.content)
    (hsupports : v.instructionSet.supports c.zone.arch = true) {dec : Decoder σ} {w w' : σ}
    (hopen : v.instructionSet.openDecoder c.zone.arch w = (.ok dec, w')) :
    ∃ o w', v.openZone w = (.ok o, w') := by
  have hbuild : (Index.build c.zone v.source dec c.config w').1 = .ok c.index :=
    Index.build_of_quiet hz.fault?_eq hz.stop_le hd.echoes hv.source (hv.decoder w dec w' hopen) rfl
  rw [openZone, hv.zone_eq, hv.config_eq, hsupports, Bool.not_true, if_neg Bool.false_ne_true,
    hopen]
  dsimp only
  generalize Index.build c.zone v.source dec c.config w' = built at hbuild
  obtain ⟨r, w''⟩ := built
  obtain rfl : r = _ := hbuild
  dsimp only
  split <;> exact ⟨_, _, rfl⟩

structure Agrees (v : View σ) (c : Scene) (shown : List Nat) : Prop where
  isOf : v.IsOf c
  opened : ∃ o, v.status = .ready o ∧ o.Agrees c shown

def isScanned (v : View σ) : Bool :=
  v.open?.any (·.scanned)

def lineCount (v : View σ) : Nat :=
  (v.open?.map (·.levels.size)).getD 0

theorem exists_ready_of_isSome (h : v.open?.isSome = true) : ∃ o, v.status = .ready o := by
  cases hstatus : v.status with
  | ready o => exact ⟨o, rfl⟩
  | untouched | unusable =>
    rw [open?, hstatus] at h
    cases h

section Ready

variable {o : OpenZone σ}

theorem isScanned_of_ready (h : v.status = .ready o) : v.isScanned = o.scanned := by
  rw [isScanned, open?, h]
  rfl

theorem lineCount_of_ready (h : v.status = .ready o) : v.lineCount = o.levels.size := by
  rw [lineCount, open?, h]
  rfl

theorem ensureOpen_of_ready (h : v.status = .ready o) (w : σ) :
    v.ensureOpen w = (.ok o, v, w) := by
  rw [ensureOpen, h]

theorem deepScan_of_ready (h : v.status = .ready o) (w : σ) :
    v.deepScan w = ((o.scan v.zone v.source w).1, v.keep (o.scan v.zone v.source w).2.1,
      (o.scan v.zone v.source w).2.2) := by
  rw [deepScan, ensureOpen_of_ready h]

theorem agrees_of_ready (hv : v.IsOf c) (h : v.status = .ready o) (ho : o.Agrees c shown) :
    v.Agrees c shown :=
  ⟨hv, o, h, ho⟩

theorem keep_agrees (hv : v.IsOf c) (ho : o.Agrees c shown) : (v.keep o).Agrees c shown :=
  ⟨hv.with_status _, o, rfl, ho⟩

end Ready

theorem initialise_agrees (hv : v.IsOf c) (hd : c.decoding.Regular) (hnew : v.status = .untouched)
    {n : Nat} {w : σ} (h : (v.initialise w).1 = .ok n) :
    (v.initialise w).2.1.isScanned = c.config.scanOnStart ∧ (v.initialise w).2.1.Agrees c [] := by
  rw [initialise, ensureOpen, hnew] at h ⊢
  dsimp only at h ⊢
  cases hopen : v.openZone w with
  | mk r w' =>
    rw [hopen] at h
    cases r with
    | error e => cases h
    | ok o =>
      obtain ⟨hscanned, ho⟩ := openZone_agrees hv hd hopen
      exact ⟨hscanned, keep_agrees hv ho⟩

theorem initialise_again (h : v.Agrees c shown) (w : σ) :
    (v.initialise w).2.1.isScanned = v.isScanned ∧ (v.initialise w).2.1.Agrees c shown := by
  obtain ⟨o, hready, -⟩ := h.opened
  rw [initialise, ensureOpen_of_ready hready]
  exact ⟨rfl, h⟩

/-- Rendering gives what the scene has, whether it is at hand or not. -/
theorem render_eq (hd : c.decoding.Regular) (h : v.Agrees c shown) (start count : Nat) (w : σ) :
    ∃ v' w', v.render start count w = (.ok (c.window v.isScanned start count), v', w') ∧
      v'.isScanned = v.isScanned ∧ v'.lineCount = v.lineCount ∧
      v'.Agrees c (shown ++ List.range' start (min (start + count) v.lineCount - start)) := by
  obtain ⟨o, hready, ho⟩ := h.opened
  rw [render, ensureOpen_of_ready hready, isScanned_of_ready hready, lineCount_of_ready hready]
  dsimp only
  cases hcached : cached? start count o with
  | some lines =>
    obtain ⟨u, hu, rfl, rfl, rfl⟩ := mem_of_cached? hcached
    refine ⟨v, w, by rw [ho.window_eq u hu], isScanned_of_ready hready, lineCount_of_ready hready,
      agrees_of_ready h.isOf hready (ho.again fun k hk => ?_)⟩
    obtain ⟨hle, hlt⟩ := List.mem_range'_1.1 hk
    exact ho.window_shown u hu k hle (by omega) (by omega)
  | none =>
    obtain ⟨o', w', hrender, ho', hscanned, hsize⟩ := renderWindow_eq h.isOf hd ho start count w
    dsimp only
    rw [hrender]
    exact ⟨v.keep o', w', rfl, hscanned, hsize, keep_agrees h.isOf ho'⟩

theorem render_agrees (hd : c.decoding.Regular) (h : v.Agrees c shown) (start count : Nat) (w : σ) :
    (v.render start count w).2.1.isScanned = v.isScanned ∧
      (v.render start count w).2.1.Agrees c (shown ++ List.range' start
        (min (start + count) (v.render start count w).2.1.lineCount - start)) := by
  obtain ⟨v', w', hrender, hscanned, hcount, h'⟩ := render_eq hd h start count w
  rw [hrender, hcount]
  exact ⟨hscanned, h'⟩

theorem display_view (start count : Nat) (opts : DisplayOptions) (w : σ) :
    (v.display start count opts w).2 = (v.render start count w).2 := by
  rw [display]
  generalize v.render start count w = rendered
  obtain ⟨r, v', w'⟩ := rendered
  cases r <;> rfl

theorem follow_agrees (h : v.Agrees c shown) (line : Nat) (w : σ) :
    (v.follow line w).2.1.isScanned = v.isScanned ∧ (v.follow line w).2.1.Agrees c shown := by
  obtain ⟨o, hready, -⟩ := h.opened
  rw [follow_view, ensureOpen_of_ready hready]
  exact ⟨rfl, h⟩

theorem lineOfOffset_agrees (h : v.Agrees c shown) (offset : Nat) (w : σ) :
    (v.lineOfOffset offset w).2.1.isScanned = v.isScanned ∧
      (v.lineOfOffset offset w).2.1.Agrees c shown := by
  obtain ⟨o, hready, -⟩ := h.opened
  rw [lineOfOffset_view, ensureOpen_of_ready hready]
  exact ⟨rfl, h⟩

theorem exportText_agrees (h : v.Agrees c shown) (w : σ) :
    (v.exportText w).2.2.1.isScanned = v.isScanned ∧ (v.exportText w).2.2.1.Agrees c shown := by
  obtain ⟨o, hready, ho⟩ := h.opened
  rw [exportText, ensureOpen_of_ready hready]
  exact ⟨(isScanned_of_ready hready).symm, keep_agrees h.isOf
    (ho.update ho.levels rfl ho.seeker.steady.sound_reset ho.notes (List.Subset.refl shown))⟩

theorem invalidate_agrees (h : v.Agrees c shown) :
    v.invalidate.isScanned = v.isScanned ∧ v.invalidate.Agrees c shown := by
  obtain ⟨o, hready, ho⟩ := h.opened
  rw [isScanned_of_ready hready, invalidate, hready]
  exact ⟨rfl, keep_agrees h.isOf (ho.with_window nofun nofun)⟩

/-- Looking for the labels succeeds. Where that has been done, nothing changes. -/
theorem deepScan_agrees (hd : c.decoding.Regular) (h : v.Agrees c shown) (w : σ) :
    (v.deepScan w).2.1.isScanned = true ∧
      (v.deepScan w).2.1.Agrees c (if v.isScanned then shown else []) := by
  obtain ⟨o, hready, ho⟩ := h.opened
  obtain ⟨o', w', hscan, hscanned, ho'⟩ := OpenZone.scan_agrees hd h.isOf.source ho w
  rw [isScanned_of_ready hready, deepScan, ensureOpen_of_ready hready]
  dsimp only
  rw [h.isOf.zone_eq, hscan]
  exact ⟨hscanned, keep_agrees h.isOf ho'⟩

end View
end Disassembly
