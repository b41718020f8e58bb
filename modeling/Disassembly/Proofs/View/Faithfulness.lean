import Disassembly.Proofs.View.Shortfall

/-! # Nothing stale and nothing wrong

A failure may come at any of the reads and decodes behind a window, and later windows are rendered by
what it has left behind. What is shown is right nevertheless: a window has the records that it would
have if nothing failed, up to the first that cannot be produced, and at most a target is missing.
-/

namespace Disassembly

variable {σ : Type} {faults : σ → Nat} {c : Scene}

/-- The line shows what `m` shows, but may lack its target. -/
structure Line.ShowsAtMost (l m : Line) : Prop where
  rest_eq : l.withoutRails = { m with targetLine := l.targetLine }
  targetLine_eq : l.targetLine = m.targetLine ∨ l.targetLine = none

namespace Scene

variable {s : Levels}

/-- An open zone with this index and these labels in which nothing has been looked at yet, and nothing
fails. -/
def quietZone (c : Scene) (index : Index) (s : Levels) : OpenZone Unit where
  decoder := c.decoding.decoder
  index := index
  seeker := .start c.zone.stop
  levels := { root := s.root }
  scanned := true

def quietLine (c : Scene) (index : Index) (s : Levels) (number : Nat) : Line :=
  (c.view.renderLine number (c.quietZone index s) ()).1

/-- The lines of a window are in order and without gaps. Only the last one may have failed; if it has
not, the window is complete. Any other line shows what it would show if nothing failed, but for its
target. -/
structure Faithful (c : Scene) (index : Index) (s : Levels) (start count : Nat)
    (lines : List Line) : Prop where
  numbers_eq : lines.map (·.number) = List.range' start lines.length
  failed_last : ∀ {k : Nat} {l : Line} {e : Error}, lines[k]? = some l → l.kind = .failed e →
    k + 1 = lines.length
  length_eq : (∀ l ∈ lines, ∀ e, l.kind ≠ .failed e) →
    lines.length = min (start + count) s.size - start
  shows : ∀ l ∈ lines, (∀ e, l.kind ≠ .failed e) → l.ShowsAtMost (c.quietLine index s l.number)

/-- The lines of a window are all there, none has failed, and rails aside each shows all that it
would show if nothing failed. -/
structure Complete (c : Scene) (index : Index) (s : Levels) (start count : Nat)
    (lines : List Line) : Prop where
  kind_ne : ∀ l ∈ lines, ∀ e, l.kind ≠ .failed e
  lines_eq : lines.map Line.withoutRails =
    (List.range' start (min (start + count) s.size - start)).map (c.quietLine index s)

theorem view_weathers (c : Scene) : c.view.Weathers c noFaults where
  zone_eq := rfl
  config_eq := rfl
  env_eq := rfl
  source := Source.ofBytes_serves c.content
  decoder w dec w' h := by
    cases h
    exact c.decoding.decoder_follows

theorem interruptedView_weathers (c : Scene) : c.interruptedView.Weathers c Interruptions.count where
  zone_eq := rfl
  config_eq := rfl
  env_eq := rfl
  source := Source.interrupted_serves c.content
  decoder w dec w' h := by
    cases h
    exact c.decoding.interrupted_follows

theorem quietZone_enduring (hz : c.zone.LiesIn c.content) {flat : List Resolved}
    (hs : s.Models c.index.lineCount flat) : (c.quietZone c.index s).Enduring c noFaults where
  lies := hz
  decoder := c.decoding.decoder_follows
  index_eq := rfl
  seeker := ⟨rfl, nofun, nofun⟩
  levels := ⟨flat, Scene.models_of_root_eq hs
    ⟨hs.sound.start_eq, hs.sound.nested, hs.sound.distinct, nofun⟩ rfl⟩
  root_eq := nofun
  window := nofun

theorem quietLine_eq (hd : c.decoding.Regular) (hz : c.zone.LiesIn c.content) {flat : List Resolved}
    (hs : s.Models c.index.lineCount flat) {number : Nat} (hnumber : number < s.size) :
    c.quietLine c.index s number = c.recordIn s number := by
  obtain ⟨l, o', w', hline, houtcome, -⟩ :=
    View.renderLine_cases hd c.view_weathers (quietZone_enduring hz hs) hnumber ()
  have hroot : (c.quietZone c.index s).levels.root = s.root := rfl
  rw [quietLine, hline, ← recordIn_congr hroot]
  exact houtcome.eq_of_not_harm (Nat.lt_irrefl 0)

section Rendered

variable {harm : Prop} {number count : Nat} {ls : List Line}

theorem Rendered.numbers_eq (h : c.Rendered s harm number count ls) :
    ls.map (·.number) = List.range' number ls.length := by
  induction h with
  | done number => rfl
  | failed number count hharm e => rfl
  | line outcome kind_ne rest ih =>
    rw [List.map_cons, ih, outcome.number_eq, List.length_cons, List.range'_succ]

theorem Rendered.failed_last (h : c.Rendered s harm number count ls) {k : Nat} {l : Line}
    {e : Error} (hl : ls[k]? = some l) (hkind : l.kind = .failed e) : k + 1 = ls.length := by
  induction h generalizing k with
  | done number => cases hl
  | failed number count hharm e' =>
    cases k with
    | zero => rfl
    | succ k => cases hl
  | line outcome kind_ne rest ih =>
    cases k with
    | zero =>
      cases hl
      exact absurd hkind (kind_ne e)
    | succ k => rw [ih hl, List.length_cons]

theorem Rendered.length_eq (h : c.Rendered s harm number count ls)
    (hkinds : ∀ l ∈ ls, ∀ e, l.kind ≠ .failed e) : ls.length = count := by
  induction h with
  | done number => rfl
  | failed number count hharm e => exact absurd rfl (hkinds _ List.mem_cons_self e)
  | line outcome kind_ne rest ih =>
    rw [List.length_cons, ih fun l hl => hkinds l (List.mem_cons_of_mem _ hl)]

theorem Rendered.outcome_of_mem (h : c.Rendered s harm number count ls) {l : Line} (hl : l ∈ ls) :
    number ≤ l.number ∧ l.number < number + count ∧ c.Outcome s l.number harm l := by
  induction h with
  | done number => cases hl
  | failed number count hharm e =>
    cases List.mem_singleton.1 hl
    exact ⟨Nat.le_refl number, Nat.lt_add_of_pos_right (Nat.succ_pos count), .failed hharm e⟩
  | line outcome kind_ne rest ih =>
    rcases List.mem_cons.1 hl with rfl | hl
    · rw [outcome.number_eq]
      exact ⟨by omega, by omega, outcome⟩
    · obtain ⟨hle, hlt, hrest⟩ := ih hl
      exact ⟨by omega, by omega, hrest⟩

theorem Rendered.eq_of_not_harm (h : c.Rendered s harm number count ls) (hquiet : ¬ harm) :
    ls = (List.range' number count).map (c.recordIn s) := by
  induction h with
  | done number => rfl
  | failed number count hharm e => exact absurd hharm hquiet
  | line outcome kind_ne rest ih =>
    rw [List.range'_succ, List.map_cons, ← ih, outcome.eq_of_not_harm hquiet]

theorem Outcome.showsAtMost {l : Line} (h : c.Outcome s number harm l.withoutRails)
    (hkind : ∀ e, l.kind ≠ .failed e) : l.ShowsAtMost (c.recordIn s number) := by
  generalize hl : l.withoutRails = l' at h
  have htarget : l.targetLine = l'.targetLine := by
    rw [← hl]
    rfl
  cases h with
  | whole => exact ⟨by rw [hl, htarget], .inl htarget⟩
  | untargeted => exact ⟨by rw [hl, htarget], .inr htarget⟩
  | failed _ e => exact absurd (congrArg Line.kind hl) (hkind e)

theorem Rendered.outcome_of_shown {start : Nat} {lines : List Line}
    (h : c.Rendered s harm start (min (start + count) s.size - start) (lines.map Line.withoutRails))
    {l : Line} (hl : l ∈ lines) :
    l.number < s.size ∧ c.Outcome s l.number harm l.withoutRails := by
  obtain ⟨hle, hlt, houtcome⟩ := h.outcome_of_mem (List.mem_map_of_mem hl)
  refine ⟨?_, houtcome⟩
  change start ≤ l.number at hle
  change l.number < _ at hlt
  omega

section Window

variable {flat : List Resolved} {start count : Nat} {lines : List Line}
  (hd : c.decoding.Regular) (hz : c.zone.LiesIn c.content) (hs : s.Models c.index.lineCount flat)
  (h : c.Rendered s harm start (min (start + count) s.size - start) (lines.map Line.withoutRails))

include hd hz hs h

theorem Rendered.faithful : c.Faithful c.index s start count lines where
  numbers_eq := by
    have hnumbers := h.numbers_eq
    rwa [List.map_map, List.length_map] at hnumbers
  failed_last {k l e} hl hkind := by
    have hlast := h.failed_last (k := k) (l := l.withoutRails) (by rw [List.getElem?_map, hl]; rfl)
      hkind
    rwa [List.length_map] at hlast
  length_eq hkinds := by
    have hlength := h.length_eq fun l' hl' => by
      obtain ⟨l, hl, rfl⟩ := List.mem_map.1 hl'
      exact hkinds l hl
    rwa [List.length_map] at hlength
  shows l hl hkind := by
    obtain ⟨hsize, houtcome⟩ := h.outcome_of_shown hl
    rw [quietLine_eq hd hz hs hsize]
    exact houtcome.showsAtMost hkind

theorem Rendered.complete (hquiet : ¬ harm) : c.Complete c.index s start count lines where
  kind_ne l hl := by
    obtain ⟨hsize, houtcome⟩ := h.outcome_of_shown hl
    have hrecord := houtcome.eq_of_not_harm hquiet
    intro e
    rw [show l.kind = l.withoutRails.kind from rfl, hrecord]
    exact c.recordIn_kind hs hsize e
  lines_eq := by
    rw [h.eq_of_not_harm hquiet]
    apply List.map_congr_left
    intro k hk
    obtain ⟨hle, hlt⟩ := List.mem_range'_1.1 hk
    exact (quietLine_eq hd hz hs (by omega)).symm

end Window

end Rendered

end Scene

namespace OpenZone

variable {o : OpenZone σ} {source : Source σ}

theorem fresh_enduring (hz : c.zone.LiesIn c.content) {decoder : Decoder σ}
    (hdec : decoder.Follows c.decoding faults) :
    (fresh c.zone decoder c.index).Enduring c faults where
  lies := hz
  decoder := hdec
  index_eq := rfl
  seeker := ⟨rfl, nofun, nofun⟩
  levels := ⟨_, Levels.start_models c.index.lineCount⟩
  root_eq _ := rfl
  window := nofun

theorem Enduring.scan (hd : c.decoding.Regular) (hsource : source.Serves c.content faults)
    (ho : o.Enduring c faults) {w w' : σ} {r : Except Error Nat} {o' : OpenZone σ}
    (h : o.scan c.zone source w = (r, o', w')) : o'.Enduring c faults := by
  rw [OpenZone.scan] at h
  by_cases hscanned : o.scanned = true
  · rw [if_pos hscanned] at h
    cases h
    exact ho
  · rw [if_neg hscanned] at h
    have hroot := ho.root_eq (Bool.eq_false_iff.2 hscanned)
    have hcount : o.levels.labelCount = 0 := by
      rw [Levels.labelCount, hroot]
      rfl
    obtain ⟨flat, hmodels⟩ := ho.levels
    cases hscan : o.levels.scan c.zone source o.decoder o.index o.seeker w with
    | mk r₁ rest =>
      obtain ⟨s, k, w₁⟩ := rest
      rw [hscan] at h
      rw [ho.index_eq] at hscan
      obtain ⟨hk, -, ⟨w₂, rfl, rfl⟩ | ⟨⟨e, rfl⟩, -⟩⟩ :=
        Scene.scan_ends hd ho.lies hsource ho.decoder ho.seeker hmodels hcount hscan
      · cases h
        exact {
          lies := ho.lies
          decoder := ho.decoder
          index_eq := ho.index_eq
          seeker := hk
          levels := c.labelled_models hmodels 0 _
          root_eq := fun hplain => by cases hplain
          window := fun u hu => by cases hu }
      · cases h
        -- the labels that went in are dropped again with the levels that have them
        refine ho.update ?_ ?_ hk.steady.sound_reset o.notes
        · rw [ho.index_eq]
          exact ⟨_, Levels.start_models c.index.lineCount⟩
        · rw [ho.index_eq, hroot]

end OpenZone

namespace View

variable {v : View σ} {o : OpenZone σ}

structure Endures (v : View σ) (c : Scene) (faults : σ → Nat) : Prop where
  weathers : v.Weathers c faults
  opened : ∃ o, v.status = .ready o ∧ o.Enduring c faults

theorem Weathers.keep (hv : v.Weathers c faults) (ho : o.Enduring c faults) :
    (v.keep o).Endures c faults where
  weathers := ⟨hv.zone_eq, hv.config_eq, hv.env_eq, hv.source, hv.decoder⟩
  opened := ⟨o, rfl, ho⟩

def IndexesQuietly (v : View σ) (faults : σ → Nat) (w : σ) : Prop :=
  ∀ decoder w₁, v.instructionSet.openDecoder v.zone.arch w = (.ok decoder, w₁) →
    faults (Index.build v.zone v.source decoder v.config w₁).2 = faults w₁

theorem openZone_enduring (hd : c.decoding.Regular) (hv : v.Weathers c faults) {w w' : σ}
    (hquiet : v.IndexesQuietly faults w) (h : v.openZone w = (.ok o, w')) :
    o.Enduring c faults := by
  obtain ⟨decoder, w₁, index, w₂, hopen, hbuild, hends⟩ := openZone_cases h
  have hbuilt := hquiet decoder w₁ hopen
  rw [hbuild] at hbuilt
  rw [hv.zone_eq] at hopen hends
  rw [hv.zone_eq, hv.config_eq] at hbuild
  have hdec := hv.decoder _ _ _ hopen
  have hz := Index.liesIn_of_build hv.source hbuild
  obtain rfl : index = c.index := Index.eq_ofZone_of_build hz.fault?_eq hz.stop_le hd.echoes
    hv.source hdec hbuild hbuilt
  have ho := OpenZone.fresh_enduring hz hdec
  rcases hends with ⟨-, rfl⟩ | ⟨-, r, hscan⟩
  · exact ho
  · exact ho.scan hd hv.source hscan

theorem initialise_endures (hd : c.decoding.Regular) (hv : v.Weathers c faults)
    (hnew : v.status = .untouched) {w : σ} (hquiet : v.IndexesQuietly faults w) {n : Nat}
    (h : (v.initialise w).1 = .ok n) : (v.initialise w).2.1.Endures c faults := by
  rw [initialise, ensureOpen, hnew] at h ⊢
  dsimp only at h ⊢
  cases hopen : v.openZone w with
  | mk r w' =>
    rw [hopen] at h
    cases r with
    | error e => cases h
    | ok o => exact hv.keep (openZone_enduring hd hv hquiet hopen)

/-- Whatever fails, rendering gives lines as far as it goes, and the view endures. -/
theorem render_cases (hd : c.decoding.Regular) (h : v.Endures c faults)
    (hready : v.status = .ready o) (start count : Nat) (w : σ) :
    ∃ lines v' w', v.render start count w = (.ok lines, v', w') ∧
      c.Rendered o.levels ((cached? start count o).isSome = true ∨ faults w < faults w') start
        (min (start + count) o.levels.size - start) (lines.map Line.withoutRails) ∧
      v'.Endures c faults := by
  obtain ⟨o', hready', ho⟩ := h.opened
  cases hready.symm.trans hready'
  rw [render, ensureOpen_of_ready hready]
  dsimp only
  cases hcached : cached? start count o with
  | some lines =>
    obtain ⟨u, hu, rfl, rfl, rfl⟩ := mem_of_cached? hcached
    exact ⟨u.lines, v, w, rfl, (ho.window u hu).weaken fun _ => .inl rfl, h⟩
  | none =>
    obtain ⟨lines, o', w', hrender, hlines, ho'⟩ :=
      renderWindow_cases hd h.weathers ho start count w
    dsimp only
    rw [hrender]
    exact ⟨lines, v.keep o', w', rfl, hlines.weaken .inr, h.weathers.keep ho'⟩

theorem answer_endures (hd : c.decoding.Regular) (h : v.Endures c faults) (request : Request)
    (w : σ) : (v.answer w request).1.Endures c faults := by
  obtain ⟨o, hready, ho⟩ := h.opened
  have hrender : ∀ start count, (v.render start count w).2.1.Endures c faults := by
    intro start count
    obtain ⟨lines, v', w', hv', -, h'⟩ := render_cases hd h hready start count w
    rw [hv']
    exact h'
  cases request with
  | render start count => exact hrender start count
  | display start count opts =>
    rw [answer, display_view]
    exact hrender start count
  | follow line => rwa [answer, follow_view, ensureOpen_of_ready hready]
  | lineOfOffset offset => rwa [answer, lineOfOffset_view, ensureOpen_of_ready hready]
  | exportText =>
    rw [answer, exportText, ensureOpen_of_ready hready]
    exact h.weathers.keep (ho.update ho.levels rfl ho.seeker.steady.sound_reset o.notes)
  | invalidate =>
    rw [answer, invalidate, hready]
    exact h.weathers.keep (ho.with_window fun u hu => by cases hu)
  | initialise => rwa [answer, initialise, ensureOpen_of_ready hready]
  | deepScan =>
    rw [answer, deepScan_of_ready hready, h.weathers.zone_eq]
    exact h.weathers.keep (ho.scan hd h.weathers.source rfl)

theorem Tour.run_endures {t : Tour σ} (hd : c.decoding.Regular) (h : t.view.Endures c faults)
    (requests : List Request) : (t.run requests).view.Endures c faults := by
  induction requests generalizing t with
  | nil => exact h
  | cons request requests ih => exact ih (answer_endures hd h request t.world)

/-- Every window that is rendered is faithful to the index and the labels of the zone. One that is not
at hand is complete unless something fails while it is rendered. -/
structure RendersFaithfully (v : View σ) (c : Scene) (faults : σ → Nat) (o : OpenZone σ) : Prop where
  index_eq : o.index = c.index
  render_ok : ∀ start count w, ∃ lines v' w', v.render start count w = (.ok lines, v', w') ∧
    c.Faithful o.index o.levels start count lines ∧
    (cached? start count o = none → faults w' = faults w →
      c.Complete o.index o.levels start count lines)

theorem Endures.rendersFaithfully (hd : c.decoding.Regular) (h : v.Endures c faults)
    (hready : v.status = .ready o) : v.RendersFaithfully c faults o := by
  obtain ⟨o', hready', ho⟩ := h.opened
  cases hready.symm.trans hready'
  obtain ⟨flat, hmodels⟩ := ho.levels
  refine ⟨ho.index_eq, fun start count w => ?_⟩
  obtain ⟨lines, v', w', hrender, hlines, -⟩ := render_cases hd h hready start count w
  rw [ho.index_eq]
  refine ⟨lines, v', w', hrender, hlines.faithful hd ho.lies hmodels, fun hfresh hquiet => ?_⟩
  apply hlines.complete hd ho.lies hmodels
  simp [hfresh, hquiet]

/-- After any requests, with any reads and decodes failing since the index was built, what is rendered
is right as far as it goes. -/
theorem Tour.run_rendersFaithfully (hd : c.decoding.Regular) (hv : v.Weathers c faults)
    (hnew : v.status = .untouched) {n : Nat} {w : σ} (hquiet : v.IndexesQuietly faults w)
    (hopen : (v.initialise w).1 = .ok n) (requests : List Request) :
    ∃ o, ((Tour.start v w).run requests).view.status = .ready o ∧
      ((Tour.start v w).run requests).view.RendersFaithfully c faults o := by
  have hstart := initialise_endures hd hv hnew hquiet hopen
  have hrun := Tour.run_endures (t := Tour.start v w) hd hstart requests
  obtain ⟨o, hready, -⟩ := hrun.opened
  exact ⟨o, hready, hrun.rendersFaithfully hd hready⟩

def Tour.targetLines (t : Tour σ) (start count : Nat) : Option (List (Option Nat)) :=
  (t.render start count).toOption.map fun lines => lines.map (·.targetLine)

/-- Opening the zone goes well. Of the reads and decodes after that the second one fails. -/
def Tour.interruptedCalling : Tour Interruptions :=
  start calling.interruptedView { plan := List.replicate 16 false ++ [true] }

/-- The failure leaves the branch in the first window without its target. That window is shown again
until it is dropped. -/
theorem Tour.run_rendersFaithfully_calling :
    (∃ o, (interruptedCalling.run [.render 0 2]).view.status = .ready o ∧
        (interruptedCalling.run [.render 0 2]).view.RendersFaithfully calling Interruptions.count
          o) ∧
      (interruptedCalling.run [.render 0 2]).targetLines 0 2 = some [none, none] ∧
      (interruptedCalling.run [.render 0 2, .invalidate]).targetLines 0 2 =
        some [none, some 3] := by
  have hd : calling.decoding.Regular := Decoding.byForm_regular _
  have hopen : (calling.interruptedView.initialise
      { plan := List.replicate 16 false ++ [true] }).1 = .ok 5 := by
    cbv
  have hquiet : calling.interruptedView.IndexesQuietly Interruptions.count
      { plan := List.replicate 16 false ++ [true] } := by
    intro decoder w₁ h
    cases h
    decide +kernel
  refine ⟨?_, ?_, ?_⟩
  · exact run_rendersFaithfully hd calling.interruptedView_weathers rfl hquiet hopen [.render 0 2]
  · cbv
  · cbv

end View
end Disassembly
