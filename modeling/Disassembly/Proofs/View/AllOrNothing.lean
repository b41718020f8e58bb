import Disassembly.Proofs.View.History
import Disassembly.Proofs.View.Steadiness

/-! # All labels or none

Looking for the labels may fail at any of the reads on the way, when some labels are in already. A view
never shows that: it has all labels of the zone or none, and a scan that fails leaves the lines, the
notes and the window as they were.
-/

namespace Disassembly

variable {σ : Type} {faults : σ → Nat} {c : Scene}

namespace View

variable {v v' : View σ} {o o' : OpenZone σ}

/-- The view is one of the scene, over a file that may fail. Decoding never fails. -/
structure Watches (v : View σ) (c : Scene) (faults : σ → Nat) : Prop where
  zone_eq : v.zone = c.zone
  config_eq : v.config = c.config
  source : v.source.Serves c.content faults
  decoder : ∀ w dec w', v.instructionSet.openDecoder c.zone.arch w = (.ok dec, w') →
    dec.Answers c.decoding faults

structure Holds (v : View σ) (c : Scene) (faults : σ → Nat) : Prop where
  watches : v.Watches c faults
  steady : ∀ o, v.status = .ready o → o.Steady c faults

/-- The view `v'` has come from `v`: it is in order, and has not lost its labels. -/
structure LeadsTo (v v' : View σ) (c : Scene) (faults : σ → Nat) : Prop where
  holds : v'.Holds c faults
  isScanned : v.isScanned = true → v'.isScanned = true

theorem LeadsTo.refl (h : v.Holds c faults) : v.LeadsTo v c faults :=
  ⟨h, id⟩

theorem LeadsTo.trans {v'' : View σ} (h : v.LeadsTo v' c faults) (h' : v'.LeadsTo v'' c faults) :
    v.LeadsTo v'' c faults :=
  ⟨h'.holds, fun hv => h'.isScanned (h.isScanned hv)⟩

theorem Watches.with_status (hv : v.Watches c faults) (status : ViewStatus σ) :
    ({ v with status } : View σ).Watches c faults :=
  ⟨hv.zone_eq, hv.config_eq, hv.source, hv.decoder⟩

theorem Watches.keep_holds (hv : v.Watches c faults) (ho : o.Steady c faults) :
    (v.keep o).Holds c faults where
  watches := hv.with_status (.ready o)
  steady o' h := by
    cases h
    exact ho

theorem Holds.keep (h : v.Holds c faults) (hready : v.status = .ready o) (ho : o'.Steady c faults)
    (hscanned : o.scanned = true → o'.scanned = true) : v.LeadsTo (v.keep o') c faults where
  holds := h.watches.keep_holds ho
  isScanned hv := by
    rw [isScanned_of_ready hready] at hv
    exact hscanned hv

theorem openZone_steady (hd : c.decoding.Regular) (hv : v.Watches c faults) {w w' : σ}
    (h : v.openZone w = (.ok o, w')) : o.Steady c faults := by
  obtain ⟨decoder, w₁, index, w₂, hopen, hbuild, hends⟩ := openZone_cases h
  rw [hv.zone_eq] at hopen
  rw [hv.zone_eq, hv.config_eq] at hbuild
  rw [hv.zone_eq] at hends
  have hdec := hv.decoder _ _ _ hopen
  obtain rfl : index = c.index :=
    Index.eq_ofZone_of_reads hd.echoes hv.source hdec.follows_noFaults hbuild
  have ho := OpenZone.fresh_steady (Index.liesIn_of_build hv.source hbuild) hdec
  rcases hends with ⟨-, rfl⟩ | ⟨-, r, hscan⟩
  · exact ho
  · exact (OpenZone.scan_cases hd hv.source ho hscan).1

theorem ensureOpen_cases (hd : c.decoding.Regular) (h : v.Holds c faults) (w : σ) :
    ∃ r v' w', v.ensureOpen w = (r, v', w') ∧ v.LeadsTo v' c faults ∧
      ∀ o, r = .ok o → v'.status = .ready o ∧ o.Steady c faults := by
  rw [ensureOpen]
  cases hstatus : v.status with
  | ready o =>
    refine ⟨_, v, w, rfl, .refl h, fun o' ho' => ?_⟩
    cases ho'
    exact ⟨hstatus, h.steady o hstatus⟩
  | unusable reason =>
    refine ⟨_, v, w, rfl, .refl h, fun o' ho' => ?_⟩
    cases ho'
  | untouched =>
    have hnew : ¬ v.isScanned = true := by
      rw [isScanned, open?, hstatus]
      exact Bool.false_ne_true
    dsimp only
    cases hopen : v.openZone w with
    | mk r w' =>
      cases r with
      | error e =>
        refine ⟨_, _, w', rfl, ⟨⟨h.watches.with_status _, fun o ho => ?_⟩,
          fun hv => absurd hv hnew⟩, fun o ho => ?_⟩
        · cases ho
        · cases ho
      | ok o =>
        have ho := openZone_steady hd h.watches hopen
        refine ⟨_, _, w', rfl, ⟨h.watches.keep_holds ho, fun hv => absurd hv hnew⟩, fun o' ho' => ?_⟩
        cases ho'
        exact ⟨rfl, ho⟩

theorem renderLine_steady (hd : c.decoding.Regular) (hv : v.Watches c faults)
    (ho : o.Steady c faults) (number : Nat) (w : σ) :
    (v.renderLine number o w).2.1.Steady c faults ∧
      (v.renderLine number o w).2.1.scanned = o.scanned := by
  obtain ⟨hlevels, hroot⟩ := ho.resolve number
  rw [renderLine]
  generalize o.levels.resolve number = resolved at hlevels hroot ⊢
  obtain ⟨r, levels⟩ := resolved
  have ho₁ := ho.update hlevels hroot ho.seeker o.notes o.window
  cases r with
  | error e => exact ⟨ho₁, rfl⟩
  | ok entry =>
    cases entry with
    | label l => exact ⟨ho₁, rfl⟩
    | instruction real =>
      have hline := ho.byLine hd hv.source real w
      dsimp only
      generalize o.seeker.byLine v.source o.decoder o.index real w = found at hline ⊢
      obtain ⟨r, k, w₁⟩ := found
      cases r with
      | error e => exact ⟨ho.update hlevels hroot hline o.notes o.window, rfl⟩
      | ok seek =>
        refine ⟨ho.update hlevels hroot ?_ _ o.window, rfl⟩
        exact Enricher.enrich_sound hd ho.lies hv.source ho.decoder.follows ho.index_eq hline _ _ _ _

theorem renderLines_steady (hd : c.decoding.Regular) (hv : v.Watches c faults)
    (ho : o.Steady c faults) (done : List Line) (count number : Nat) (w : σ) :
    (v.renderLines done count number o w).2.1.Steady c faults ∧
      (v.renderLines done count number o w).2.1.scanned = o.scanned := by
  induction count generalizing done number o w with
  | zero => exact ⟨ho, rfl⟩
  | succ count ih =>
    obtain ⟨ho₁, hscanned⟩ := renderLine_steady hd hv ho number w
    rw [renderLines]
    dsimp only
    split
    · exact ⟨ho₁, hscanned⟩
    · obtain ⟨ho', hscanned'⟩ := ih ho₁ ((v.renderLine number o w).1 :: done) (number + 1) _
      exact ⟨ho', hscanned'.trans hscanned⟩

theorem renderWindow_steady (hd : c.decoding.Regular) (hv : v.Watches c faults)
    (ho : o.Steady c faults) (start count : Nat) (w : σ) :
    (v.renderWindow start count o w).2.1.Steady c faults ∧
      (v.renderWindow start count o w).2.1.scanned = o.scanned := by
  obtain ⟨ho', hscanned⟩ :=
    renderLines_steady hd hv ho [] (min (start + count) o.levels.size - start) start w
  exact ⟨ho'.update ho'.levels rfl ho'.seeker _ _, hscanned⟩

theorem render_leadsTo (hd : c.decoding.Regular) (h : v.Holds c faults) (start count : Nat) (w : σ) :
    v.LeadsTo (v.render start count w).2.1 c faults := by
  obtain ⟨r, v₁, w₁, hopen, h₁, hready⟩ := ensureOpen_cases hd h w
  rw [render, hopen]
  cases r with
  | error e => exact h₁
  | ok o =>
    obtain ⟨hstatus, ho⟩ := hready o rfl
    dsimp only
    split
    · exact h₁
    · obtain ⟨ho', hscanned⟩ := renderWindow_steady hd h₁.holds.watches ho start count w₁
      exact h₁.trans (h₁.holds.keep hstatus ho' (hscanned.trans · ))

theorem ensureOpen_leadsTo (hd : c.decoding.Regular) (h : v.Holds c faults) (w : σ) :
    v.LeadsTo (v.ensureOpen w).2.1 c faults := by
  obtain ⟨r, v₁, w₁, hopen, h₁, -⟩ := ensureOpen_cases hd h w
  rw [hopen]
  exact h₁

theorem exportText_leadsTo (hd : c.decoding.Regular) (h : v.Holds c faults) (w : σ) :
    v.LeadsTo (v.exportText w).2.2.1 c faults := by
  obtain ⟨r, v₁, w₁, hopen, h₁, hready⟩ := ensureOpen_cases hd h w
  rw [exportText, hopen]
  cases r with
  | error e => exact h₁
  | ok o =>
    obtain ⟨hstatus, ho⟩ := hready o rfl
    exact h₁.trans (h₁.holds.keep hstatus
      (ho.update ho.levels rfl ho.seeker.steady.sound_reset o.notes o.window) id)

theorem invalidate_leadsTo (h : v.Holds c faults) : v.LeadsTo v.invalidate c faults := by
  rw [invalidate]
  cases hstatus : v.status with
  | ready o =>
    have ho := h.steady o hstatus
    exact h.keep hstatus (ho.update ho.levels rfl ho.seeker o.notes none) id
  | untouched => exact .refl h
  | unusable reason => exact .refl h

theorem initialise_leadsTo (hd : c.decoding.Regular) (h : v.Holds c faults) (w : σ) :
    v.LeadsTo (v.initialise w).2.1 c faults := by
  obtain ⟨r, v₁, w₁, hopen, h₁, -⟩ := ensureOpen_cases hd h w
  rw [initialise, hopen]
  cases r <;> exact h₁

theorem deepScan_leadsTo (hd : c.decoding.Regular) (h : v.Holds c faults) (w : σ) :
    v.LeadsTo (v.deepScan w).2.1 c faults := by
  obtain ⟨r, v₁, w₁, hopen, h₁, hready⟩ := ensureOpen_cases hd h w
  rw [deepScan, hopen]
  cases r with
  | error e => exact h₁
  | ok o =>
    obtain ⟨hstatus, ho⟩ := hready o rfl
    dsimp only
    rw [h₁.holds.watches.zone_eq]
    cases hscan : o.scan c.zone v₁.source w₁ with
    | mk r rest =>
      obtain ⟨o', w'⟩ := rest
      obtain ⟨ho', hends⟩ := OpenZone.scan_cases hd h₁.holds.watches.source ho hscan
      refine h₁.trans (h₁.holds.keep hstatus ho' fun hscanned => ?_)
      cases hends with
      | again hon => exact hscanned
      | found hoff hon => exact hon
      | failed e seeker hoff hlt =>
        rw [hscanned] at hoff
        cases hoff

theorem answer_leadsTo (hd : c.decoding.Regular) (h : v.Holds c faults) (request : Request) (w : σ) :
    v.LeadsTo (v.answer w request).1 c faults := by
  cases request with
  | render start count => exact render_leadsTo hd h start count w
  | display start count opts =>
    rw [answer, display_view]
    exact render_leadsTo hd h start count w
  | follow line =>
    rw [answer, follow_view]
    exact ensureOpen_leadsTo hd h w
  | lineOfOffset offset =>
    rw [answer, lineOfOffset_view]
    exact ensureOpen_leadsTo hd h w
  | exportText => exact exportText_leadsTo hd h w
  | invalidate => exact invalidate_leadsTo h
  | initialise => exact initialise_leadsTo hd h w
  | deepScan => exact deepScan_leadsTo hd h w

theorem Tour.run_leadsTo {t : Tour σ} (hd : c.decoding.Regular) (h : t.view.Holds c faults)
    (requests : List Request) : t.view.LeadsTo (t.run requests).view c faults := by
  induction requests generalizing t with
  | nil => exact .refl h
  | cons request requests ih =>
    have hstep : t.view.LeadsTo (t.step request).view c faults :=
      answer_leadsTo hd h request t.world
    exact hstep.trans (ih hstep.holds)

/-- What holds of a view whose zone is open: its lines have no labels or all labels of the zone, and
looking for the labels either puts all of them in or leaves everything that can be seen as it was. -/
structure AllOrNothing (v : View σ) (c : Scene) (faults : σ → Nat) (o : OpenZone σ) : Prop where
  lines : (o.scanned = false ∧
      o.levels.AnswersFlat c.index.lineCount ((List.range c.index.lineCount).map .instruction)) ∨
    (o.scanned = true ∧ o.levels.Labelled c.zone c.index c.instructions)
  error_keeps : ∀ w e v' w', v.deepScan w = (.error e, v', w') →
    ∃ o', v'.status = .ready o' ∧ o'.index = o.index ∧ o'.notes = o.notes ∧ o'.window = o.window ∧
      o'.levels.size = o.levels.size ∧
      ∀ line, (o'.levels.resolve line).1 = (o.levels.resolve line).1 ∧
        o'.levels.peek line = o.levels.peek line
  quiet_ok : ∀ w, faults (v.deepScan w).2.2 = faults w → (v.deepScan w).1 =
    .ok (if o.scanned then 0 else (c.zone.targetAddresses c.index c.instructions).length)
  ok_labels : ∀ w n v' w', v.deepScan w = (.ok n, v', w') →
    ∃ o', v'.status = .ready o' ∧ o'.levels.Labelled c.zone c.index c.instructions ∧
      ∀ requests w₁, ((Tour.run { view := v', world := w' } requests).view.deepScan w₁).1 = .ok 0

/-- Opening the zone comes as far as the scan that it ends with, and that fails. -/
def OpeningScanFails (v : View σ) (w : σ) : Prop :=
  v.instructionSet.supports v.zone.arch = true ∧ v.config.scanOnStart = true ∧
    ∃ decoder w₁ index w₂ e,
      v.instructionSet.openDecoder v.zone.arch w = (.ok decoder, w₁) ∧
      Index.build v.zone v.source decoder v.config w₁ = (.ok index, w₂) ∧
      ((OpenZone.fresh v.zone decoder index).scan v.zone v.source w₂).1 = .error e

theorem deepScan_of_isScanned (h : v.isScanned = true) (w : σ) : (v.deepScan w).1 = .ok 0 := by
  cases hstatus : v.status with
  | ready o =>
    rw [isScanned_of_ready hstatus] at h
    rw [deepScan_of_ready hstatus, OpenZone.scan, if_pos h]
  | untouched | unusable =>
    rw [isScanned, open?, hstatus] at h
    cases h

theorem Holds.deepScan_cases (hd : c.decoding.Regular) (h : v.Holds c faults)
    (hready : v.status = .ready o) {w w' : σ} {r : Except Error Nat}
    (hdeep : v.deepScan w = (r, v', w')) :
    ∃ o', v' = v.keep o' ∧ o'.Steady c faults ∧ o.ScanEnds c faults w w' r o' := by
  rw [deepScan_of_ready hready, h.watches.zone_eq] at hdeep
  cases hdeep
  obtain ⟨ho', hends⟩ := OpenZone.scan_cases hd h.watches.source (h.steady o hready) rfl
  exact ⟨_, rfl, ho', hends⟩

/-- Once the labels are there, no deep scan behind any requests puts in another one. -/
theorem Holds.deepScan_again (hd : c.decoding.Regular) (h : v.Holds c faults)
    (hon : v.isScanned = true) (requests : List Request) (w w₁ : σ) :
    ((Tour.run { view := v, world := w } requests).view.deepScan w₁).1 = .ok 0 := by
  have hrun := Tour.run_leadsTo (t := { view := v, world := w }) hd h requests
  exact deepScan_of_isScanned (hrun.isScanned hon) w₁

theorem Holds.allOrNothing (hd : c.decoding.Regular) (h : v.Holds c faults)
    (hready : v.status = .ready o) : v.AllOrNothing c faults o where
  lines := by
    have ho := h.steady o hready
    cases hscanned : o.scanned with
    | false => exact .inl ⟨rfl, (ho.models_plain hscanned).answersFlat⟩
    | true => exact .inr ⟨rfl, ho.labelled hd hscanned⟩
  error_keeps w e v' w' hdeep := by
    have ho := h.steady o hready
    obtain ⟨o', rfl, -, hends⟩ := h.deepScan_cases hd hready hdeep
    cases hends with
    | failed e seeker hoff hlt =>
      have hbefore := (ho.models_plain hoff).answersFlat
      have hafter := (Levels.start_models c.index.lineCount).answersFlat
      rw [← ho.index_eq] at hbefore hafter
      refine ⟨_, rfl, rfl, rfl, rfl, hafter.size_eq.trans hbefore.size_eq.symm, fun line => ?_⟩
      exact ⟨(hafter.resolve_eq line).trans (hbefore.resolve_eq line).symm,
        (hafter.peek_eq line).trans (hbefore.peek_eq line).symm⟩
  quiet_ok w hquiet := by
    have hlies := (h.steady o hready).lies
    cases hdeep : v.deepScan w with
    | mk r rest =>
      obtain ⟨v', w'⟩ := rest
      rw [hdeep] at hquiet
      obtain ⟨o', rfl, -, hends⟩ := h.deepScan_cases hd hready hdeep
      cases hends with
      | again hon => rw [hon, if_pos rfl]
      | found hoff hon =>
        rw [hoff, if_neg Bool.false_ne_true, Scene.targets_eq hd hlies, LabelTarget.collect_eq_map,
          List.length_map]
      | failed e seeker hoff hlt =>
        -- nothing but a read makes a scan fail
        exact absurd hquiet (Nat.ne_of_gt hlt)
  ok_labels w n v' w' hdeep := by
    obtain ⟨o', rfl, ho', hends⟩ := h.deepScan_cases hd hready hdeep
    have hon : o'.scanned = true := by
      cases hends with
      | again hon => exact hon
      | found hoff hon => exact hon
    exact ⟨o', rfl, ho'.labelled hd hon, fun requests =>
      (h.watches.keep_holds ho').deepScan_again hd hon requests w'⟩

/-- Opening the zone ends with a scan if the settings ask for it, and keeps what that leaves. -/
theorem openZone_of_build {decoder : Decoder σ} {index : Index} {w w₁ w₂ : σ}
    (hsupports : v.instructionSet.supports v.zone.arch = true)
    (hstart : v.config.scanOnStart = true)
    (hopen : v.instructionSet.openDecoder v.zone.arch w = (.ok decoder, w₁))
    (hbuild : Index.build v.zone v.source decoder v.config w₁ = (.ok index, w₂)) :
    v.openZone w = (.ok ((OpenZone.fresh v.zone decoder index).scan v.zone v.source w₂).2.1,
      ((OpenZone.fresh v.zone decoder index).scan v.zone v.source w₂).2.2) := by
  rw [openZone, hsupports, Bool.not_true, if_neg Bool.false_ne_true, hopen]
  dsimp only
  rw [hbuild]
  dsimp only
  rw [if_pos hstart]
  rfl

/-- A zone is opened without labels where the scan that ends this fails. -/
theorem ensureOpen_of_openingScanFails (hd : c.decoding.Regular) (h : v.Holds c faults)
    (hnew : v.status = .untouched) {w : σ} (hfails : v.OpeningScanFails w) :
    ∃ o w', v.ensureOpen w = (.ok o, v.keep o, w') ∧
      v.initialise w = (.ok c.index.lineCount, v.keep o, w') ∧
      o.levels.AnswersFlat c.index.lineCount
        ((List.range c.index.lineCount).map .instruction) := by
  obtain ⟨hsupports, hstart, decoder, w₁, index, w₂, e, hopen, hbuild, hscan⟩ := hfails
  have hopened := openZone_of_build hsupports hstart hopen hbuild
  rw [h.watches.zone_eq] at hopen hscan hopened
  rw [h.watches.zone_eq, h.watches.config_eq] at hbuild
  have hdec := h.watches.decoder w decoder w₁ hopen
  obtain rfl : index = c.index :=
    Index.eq_ofZone_of_reads hd.echoes h.watches.source hdec.follows_noFaults hbuild
  have hfresh := OpenZone.fresh_steady (Index.liesIn_of_build h.watches.source hbuild) hdec
  have hplain := (Levels.start_models c.index.lineCount).answersFlat
  generalize hdone : (OpenZone.fresh c.zone decoder c.index).scan c.zone v.source w₂ = ended
    at hscan hopened
  obtain ⟨r, o, w₃⟩ := ended
  have hensure : v.ensureOpen w = (.ok o, v.keep o, w₃) := by
    rw [ensureOpen, hnew]
    dsimp only
    rw [hopened]
    rfl
  cases (OpenZone.scan_cases hd h.watches.source hfresh hdone).2 with
  | again | found => cases hscan
  | failed e seeker hoff hlt =>
    refine ⟨_, w₃, hensure, ?_, hplain⟩
    rw [initialise, hensure]
    rfl

/-- After any requests, with any reads failing on the way, a view whose zone is open has all labels or
none. It is open also where the scan at its opening has failed, and has none then. -/
theorem Tour.run_allOrNothing (hd : c.decoding.Regular) (hv : v.Watches c faults)
    (hnew : v.status = .untouched) (w : σ) :
    (∀ requests o, (Tour.run { view := v, world := w } requests).view.status = .ready o →
      (Tour.run { view := v, world := w } requests).view.AllOrNothing c faults o) ∧
    (v.OpeningScanFails w → ∃ o w', v.ensureOpen w = (.ok o, v.keep o, w') ∧
      v.initialise w = (.ok c.index.lineCount, v.keep o, w') ∧
      o.levels.AnswersFlat c.index.lineCount
        ((List.range c.index.lineCount).map .instruction)) := by
  have h : v.Holds c faults := ⟨hv, fun o ho => by rw [hnew] at ho; cases ho⟩
  constructor
  · intro requests o hready
    exact (Tour.run_leadsTo (t := { view := v, world := w }) hd h requests).holds.allOrNothing hd
      hready
  · exact ensureOpen_of_openingScanFails hd h hnew

def shaky : View Interruptions where
  zone := Index.paddedZone
  config := { fillerRunLimit := 2 }
  instructionSet :=
    { supports _ := true, openDecoder _ w := (.ok (Decoding.zerosAsFiller.decoderIn _), w) }
  source := .interrupted Index.paddedCode

def shakyScene : Scene where
  zone := Index.paddedZone
  content := Index.paddedCode
  decoding := .zerosAsFiller
  config := { fillerRunLimit := 2 }

theorem shaky_watches : shaky.Watches shakyScene Interruptions.count where
  zone_eq := rfl
  config_eq := rfl
  source := Source.interrupted_serves Index.paddedCode
  decoder w dec w' h := by
    cases h
    exact Decoding.zerosAsFiller.decoderIn_answers Interruptions.count

/-- The second read fails. That is the scan when the zone is opened, and the next scan succeeds. -/
theorem Tour.run_allOrNothing_shaky :
    (∃ o, (Tour.run { view := shaky, world := { plan := [false, true] } }
        [.initialise, .render 0 2, .deepScan]).view.status = .ready o ∧
      (Tour.run { view := shaky, world := { plan := [false, true] } }
        [.initialise, .render 0 2, .deepScan]).view.AllOrNothing shakyScene Interruptions.count o) ∧
    ∃ o w', shaky.ensureOpen { plan := [false, true] } = (.ok o, shaky.keep o, w') ∧
      shaky.initialise { plan := [false, true] } =
        (.ok shakyScene.index.lineCount, shaky.keep o, w') ∧
      o.levels.AnswersFlat shakyScene.index.lineCount
        ((List.range shakyScene.index.lineCount).map .instruction) := by
  obtain ⟨hall, hopening⟩ := Tour.run_allOrNothing Decoding.zerosAsFiller_regular shaky_watches rfl
    { plan := [false, true] }
  constructor
  · have hopen : (Tour.run { view := shaky, world := { plan := [false, true] } }
        [.initialise, .render 0 2, .deepScan]).view.open?.isSome = true := by
      decide +kernel
    obtain ⟨o, ho⟩ := exists_ready_of_isSome hopen
    exact ⟨o, ho, hall _ o ho⟩
  · apply hopening
    have hbuild : (Index.build shaky.zone shaky.source (Decoding.zerosAsFiller.decoderIn _)
        shaky.config { plan := [false, true] }).1 = .ok shakyScene.index :=
      Index.build_of_quiet (by decide) (by decide) Decoding.zerosAsFiller_regular.echoes
        shaky_watches.source (Decoding.decoderIn_answers _ _).follows (by decide +kernel)
    have hscan : ((OpenZone.fresh shaky.zone (Decoding.zerosAsFiller.decoderIn _)
        shakyScene.index).scan shaky.zone shaky.source (Index.build shaky.zone shaky.source
          (Decoding.zerosAsFiller.decoderIn _) shaky.config
            { plan := [false, true] }).2).1.toOption.isNone = true := by
      decide +kernel
    cases hresult : ((OpenZone.fresh shaky.zone (Decoding.zerosAsFiller.decoderIn _)
        shakyScene.index).scan shaky.zone shaky.source (Index.build shaky.zone shaky.source
          (Decoding.zerosAsFiller.decoderIn _) shaky.config { plan := [false, true] }).2).1 with
    | ok k =>
      rw [hresult] at hscan
      cases hscan
    | error e =>
      exact ⟨rfl, rfl, _, _, _, _, e, rfl, Prod.ext hbuild rfl, hresult⟩

end View
end Disassembly
