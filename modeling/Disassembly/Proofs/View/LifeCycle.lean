import Disassembly.Proofs.View.Replies

/-! # The life of a view

A view is opened by the first request that needs it to be. If that fails the view is unusable from
then on, and asks nothing of its source or its decoder any more; else it stays open over one index,
whatever fails later. None of this depends on what the source and the decoder answer: the levels
count their lines right as long as they are only ever started, labelled and resolved.
-/

namespace Disassembly

variable {σ : Type}

namespace Levels

/-- The lines are `n` instructions, and labels. -/
def HasInstructions (s : Levels) (n : Nat) : Prop :=
  ∃ flat, s.Models n flat

variable {n : Nat} {s : Levels}

theorem start_hasInstructions (n : Nat) : (start n).HasInstructions n :=
  ⟨_, start_models n⟩

theorem HasInstructions.perform (h : s.HasInstructions n) (request : Request) :
    (s.perform request).HasInstructions n := by
  obtain ⟨flat, hflat⟩ := h
  exact ⟨_, hflat.perform request⟩

theorem HasInstructions.size_eq (h : s.HasInstructions n) : s.size = n + s.labelCount := by
  obtain ⟨flat, hflat⟩ := h
  exact hflat.size_eq

section Scan

variable (source : Source σ) (dec : Decoder σ) (index : Index)

/-- Labels go in one by one, as far as their targets are found. -/
theorem labelTargets_hasInstructions (ts : List LabelTarget) (done : Nat)
    (h : s.HasInstructions n) (k : Seeker) (w : σ) :
    (labelTargets source dec index done ts s k w).2.1.HasInstructions n := by
  induction ts generalizing done s k w with
  | nil => exact h
  | cons t ts ih =>
    rw [labelTargets]
    split
    · exact h
    · dsimp only
      split
      · exact h
      · rename_i s' hinsert
        rw [← perform_insert hinsert]
        exact ih _ (h.perform _) _ _

theorem scan_hasInstructions (z : Zone) (h : s.HasInstructions n) (k : Seeker) (w : σ) :
    (s.scan z source dec index k w).2.1.HasInstructions n := by
  rw [scan]
  split
  · exact h
  · split
    · exact h
    · exact labelTargets_hasInstructions source dec index _ 0 h k _

end Scan

end Levels

namespace OpenZone

/-- The zone `o'` has come from `o`: it has the same index, and lines for the instructions of the
index if there were such before. -/
structure Continues (o' o : OpenZone σ) : Prop where
  index_eq : o'.index = o.index
  levels : o.levels.HasInstructions o.index.lineCount → o'.levels.HasInstructions o.index.lineCount

variable {o o' o'' : OpenZone σ}

theorem Continues.refl (o : OpenZone σ) : o.Continues o :=
  ⟨rfl, id⟩

theorem Continues.trans (h' : o''.Continues o') (h : o'.Continues o) : o''.Continues o where
  index_eq := h'.index_eq.trans h.index_eq
  levels hlevels := by
    rw [← h.index_eq]
    apply h'.levels
    rw [h.index_eq]
    exact h.levels hlevels

theorem scan_continues (z : Zone) (source : Source σ) (o : OpenZone σ) (w : σ) :
    (o.scan z source w).2.1.Continues o := by
  rw [scan]
  split
  · exact .refl o
  · have hscan (h : o.levels.HasInstructions o.index.lineCount) :=
      Levels.scan_hasInstructions source o.decoder o.index z h o.seeker w
    split
    · rename_i hs
      rw [hs] at hscan
      exact ⟨rfl, hscan⟩
    · exact ⟨rfl, fun _ => Levels.start_hasInstructions _⟩

end OpenZone

namespace View

variable {v : View σ} {o : OpenZone σ}

theorem openZone_hasInstructions {w w' : σ} (h : v.openZone w = (.ok o, w')) :
    o.levels.HasInstructions o.index.lineCount := by
  obtain ⟨decoder, w₁, index, w₂, -, -, hends⟩ := openZone_cases h
  rcases hends with ⟨-, rfl⟩ | ⟨-, r, hscan⟩
  · exact Levels.start_hasInstructions _
  · have hcontinues := (OpenZone.fresh v.zone decoder index).scan_continues v.zone v.source w₂
    rw [hscan] at hcontinues
    have hlevels := hcontinues.levels (Levels.start_hasInstructions _)
    rwa [← hcontinues.index_eq] at hlevels

theorem renderLine_continues (v : View σ) (number : Nat) (o : OpenZone σ) (w : σ) :
    (v.renderLine number o w).2.1.Continues o := by
  have hlevels (h : o.levels.HasInstructions o.index.lineCount) :
      (o.levels.resolve number).2.HasInstructions o.index.lineCount := h.perform (.resolve number)
  rw [renderLine]
  generalize o.levels.resolve number = resolved at hlevels
  obtain ⟨r, levels⟩ := resolved
  rcases r with e | label | real
  · exact ⟨rfl, hlevels⟩
  · exact ⟨rfl, hlevels⟩
  · dsimp only
    split <;> exact ⟨rfl, hlevels⟩

theorem renderLines_continues (v : View σ) (done : List Line) (count number : Nat) (o : OpenZone σ)
    (w : σ) : (v.renderLines done count number o w).2.1.Continues o := by
  induction count generalizing done number o w with
  | zero => exact .refl o
  | succ count ih =>
    have hline := v.renderLine_continues number o w
    rw [renderLines]
    dsimp only
    split
    · exact hline
    · exact (ih _ _ _ _).trans hline

theorem renderWindow_continues (v : View σ) (start count : Nat) (o : OpenZone σ) (w : σ) :
    (v.renderWindow start count o w).2.1.Continues o := by
  have hlines := v.renderLines_continues [] (min (start + count) o.levels.size - start) start o w
  exact ⟨hlines.index_eq, hlines.levels⟩

theorem keep_self (h : v.status = .ready o) : v.keep o = v := by
  rw [keep, ← h]

/-- An open view stays open, over a zone that continues the one before. -/
theorem answer_continues (h : v.status = .ready o) (request : Request) (w : σ) :
    ∃ o', (v.answer w request).1 = v.keep o' ∧ o'.Continues o := by
  have hsame : ∃ o', v = v.keep o' ∧ o'.Continues o := ⟨o, (keep_self h).symm, .refl o⟩
  have hrender : ∀ start count, ∃ o', (v.render start count w).2.1 = v.keep o' ∧ o'.Continues o := by
    intro start count
    rw [render, ensureOpen_of_ready h]
    dsimp only
    split
    · exact hsame
    · exact ⟨_, rfl, v.renderWindow_continues start count o w⟩
  cases request with
  | render start count => exact hrender start count
  | display start count opts =>
    rw [answer, display_view]
    exact hrender start count
  | follow line =>
    rw [answer, follow_view, ensureOpen_of_ready h]
    exact hsame
  | lineOfOffset offset =>
    rw [answer, lineOfOffset_view, ensureOpen_of_ready h]
    exact hsame
  | exportText =>
    rw [answer, exportText, ensureOpen_of_ready h]
    exact ⟨_, rfl, rfl, id⟩
  | invalidate =>
    rw [answer, invalidate, h]
    exact ⟨_, rfl, rfl, id⟩
  | initialise =>
    rw [answer, initialise, ensureOpen_of_ready h]
    exact hsame
  | deepScan =>
    rw [answer, deepScan_of_ready h]
    exact ⟨_, rfl, o.scan_continues v.zone v.source w⟩

section InstructionSet

variable (other : InstructionSet σ)

theorem renderLines_with_instructionSet (v : View σ) (done : List Line) (count number : Nat)
    (o : OpenZone σ) (w : σ) :
    ({ v with instructionSet := other } : View σ).renderLines done count number o w =
      v.renderLines done count number o w := by
  induction count generalizing done number o w with
  | zero => rfl
  | succ count ih =>
    have hline : ({ v with instructionSet := other } : View σ).renderLine number o w =
        v.renderLine number o w := rfl
    rw [renderLines, renderLines, hline]
    dsimp only
    rw [ih]

theorem respond_with_instructionSet (h : v.status = .ready o) (request : Request) (w : σ) :
    ({ v with instructionSet := other } : View σ).respond w request =
      ((v.respond w request).1, { (v.respond w request).2.1 with instructionSet := other },
        (v.respond w request).2.2) := by
  have h' : ({ v with instructionSet := other } : View σ).status = .ready o := h
  have hrender : ∀ start count, ({ v with instructionSet := other } : View σ).render start count w =
      ((v.render start count w).1, { (v.render start count w).2.1 with instructionSet := other },
        (v.render start count w).2.2) := by
    intro start count
    rw [render, render, ensureOpen_of_ready h, ensureOpen_of_ready h']
    dsimp only
    split
    · rfl
    · rw [renderWindow, renderWindow, renderLines_with_instructionSet]
      rfl
  -- opening is done, so no branch reads the instruction set; only windows have a loop behind them
  rw [respond, respond]
  cases request with
  | render start count => rw [reply, reply, answer, answer, hrender]
  | display start count opts =>
    rw [reply, reply, answer, answer, display, display, hrender]
    generalize v.render start count w = rendered
    obtain ⟨r, v', w'⟩ := rendered
    cases r <;> rfl
  | follow line =>
    rw [reply, reply, answer, answer, follow, follow, ensureOpen_of_ready h, ensureOpen_of_ready h']
    dsimp only
    split <;> rfl
  | lineOfOffset offset =>
    rw [reply, reply, answer, answer, lineOfOffset, lineOfOffset, ensureOpen_of_ready h,
      ensureOpen_of_ready h']
    rfl
  | exportText =>
    rw [reply, reply, answer, answer, exportText, exportText, ensureOpen_of_ready h,
      ensureOpen_of_ready h']
    rfl
  | invalidate =>
    rw [reply, reply, answer, answer, invalidate, invalidate, h]
    rfl
  | initialise =>
    rw [reply, reply, answer, answer, initialise, initialise, ensureOpen_of_ready h,
      ensureOpen_of_ready h']
  | deepScan =>
    rw [reply, reply, answer, answer, deepScan_of_ready h, deepScan_of_ready h']
    rfl

end InstructionSet

/-- A view that has not been opened opens its zone for the first request that needs it. -/
theorem respond_of_untouched (hnew : v.status = .untouched) {request : Request}
    (hrequest : request ≠ .invalidate) {w w' : σ} (h : v.openZone w = (.ok o, w')) :
    v.respond w request = (v.keep o).respond w' request := by
  apply respond_congr _ hrequest
  rw [ensureOpen, hnew, ensureOpen_of_ready (v := v.keep o) rfl]
  dsimp only
  rw [h]
  rfl

theorem respond_of_untouched_error (hnew : v.status = .untouched) {request : Request}
    (hrequest : request ≠ .invalidate) {w w' : σ} {e : Error}
    (h : v.openZone w = (.error e, w')) :
    v.respond w request = (request.refusal e, { v with status := .unusable e.message }, w') := by
  apply respond_of_error _ hrequest
  rw [ensureOpen, hnew]
  dsimp only
  rw [h]

/-- Once it has failed, an unusable view refuses whatever is asked for, and nothing is done. -/
theorem respond_of_unusable {reason : String} (h : v.status = .unusable reason) {request : Request}
    (hrequest : request ≠ .invalidate) (w : σ) :
    v.respond w request = (request.refusal { failure := .unusable reason }, v, w) := by
  apply respond_of_error _ hrequest
  rw [ensureOpen, h]

theorem invalidate_of_not_ready (h : ∀ o, v.status ≠ .ready o) : v.invalidate = v := by
  rw [invalidate]
  split
  · rename_i o ho
    exact absurd ho (h o)
  · rfl

theorem Request.exists_first {requests : List Request} (h : ∃ r ∈ requests, r ≠ .invalidate) :
    ∃ before first later, requests = before ++ first :: later ∧ (∀ r ∈ before, r = .invalidate) ∧
      first ≠ .invalidate := by
  obtain ⟨r, hmem, hr⟩ := h
  induction requests with
  | nil => cases hmem
  | cons s requests ih =>
    by_cases hs : s = .invalidate
    · have hlater : r ∈ requests := (List.mem_cons.1 hmem).resolve_left fun h => hr (h.trans hs)
      obtain ⟨before, first, later, rfl, hbefore, hfirst⟩ := ih hlater
      exact ⟨s :: before, first, later, rfl, List.forall_mem_cons.2 ⟨hs, hbefore⟩, hfirst⟩
    · exact ⟨[], s, requests, rfl, nofun, hs⟩

namespace Tour

variable {t : Tour σ} {requests : List Request}

theorem run_append_cons (t : Tour σ) (before later : List Request) (first : Request) :
    t.run (before ++ first :: later) = ((t.run before).step first).run later := by
  rw [run, List.foldl_append, List.foldl_cons]
  rfl

/-- What a tour comes to depends on where it starts, and not on what has been shown before. -/
theorem run_congr {t' : Tour σ} (hview : t.view = t'.view) (hworld : t.world = t'.world)
    (requests : List Request) :
    (t.run requests).view = (t'.run requests).view ∧
      (t.run requests).world = (t'.run requests).world := by
  induction requests generalizing t t' with
  | nil => exact ⟨hview, hworld⟩
  | cons r requests ih =>
    have hanswer : t.view.answer t.world r = t'.view.answer t'.world r := by rw [hview, hworld]
    exact ih (t := t.step r) (congrArg (·.1) hanswer) (congrArg (·.2) hanswer)

/-- If none of the requests does anything, then neither do all of them. -/
theorem run_of_idle
    (h : ∀ r ∈ requests, t.view.answer t.world r = (t.view, t.world)) :
    (t.run requests).view = t.view ∧ (t.run requests).world = t.world := by
  induction requests generalizing t with
  | nil => exact ⟨rfl, rfl⟩
  | cons r requests ih =>
    have hr := h r List.mem_cons_self
    have hview : (t.step r).view = t.view := congrArg (·.1) hr
    have hworld : (t.step r).world = t.world := congrArg (·.2) hr
    have hlater : ∀ r' ∈ requests, (t.step r).view.answer (t.step r).world r' =
        ((t.step r).view, (t.step r).world) := by
      rw [hview, hworld]
      exact fun r' hr' => h r' (List.mem_cons_of_mem _ hr')
    obtain ⟨hrun, hrunworld⟩ := ih hlater
    exact ⟨hrun.trans hview, hrunworld.trans hworld⟩

theorem run_of_invalidate (hnew : t.view.status = .untouched)
    (hall : ∀ r ∈ requests, r = .invalidate) :
    (t.run requests).view = t.view ∧ (t.run requests).world = t.world := by
  apply run_of_idle
  intro r hr
  rw [hall r hr]
  exact Prod.ext (invalidate_of_not_ready fun o => by rw [hnew]; nofun) rfl

theorem run_of_unusable {reason : String} (h : t.view.status = .unusable reason)
    (requests : List Request) :
    (t.run requests).view = t.view ∧ (t.run requests).world = t.world := by
  apply run_of_idle
  intro r _
  by_cases hr : r = .invalidate
  · rw [hr]
    exact Prod.ext (invalidate_of_not_ready fun o => by rw [h]; nofun) rfl
  · exact congrArg (·.2) (respond_of_unusable h hr t.world)

theorem run_of_ready {o : OpenZone σ} (h : t.view.status = .ready o)
    (requests : List Request) :
    ∃ o', (t.run requests).view = t.view.keep o' ∧ o'.Continues o := by
  induction requests generalizing t o with
  | nil => exact ⟨o, (keep_self h).symm, .refl o⟩
  | cons r requests ih =>
    obtain ⟨o₁, hview, ho₁⟩ := answer_continues h r t.world
    have hstep : (t.step r).view = t.view.keep o₁ := hview
    have hready : (t.step r).view.status = .ready o₁ := by
      rw [hstep]
      rfl
    obtain ⟨o', hrun, ho'⟩ := ih hready
    refine ⟨o', ?_, ho'.trans ho₁⟩
    rw [hstep] at hrun
    exact hrun

theorem run_of_openZone_error (hnew : v.status = .untouched) {w w₁ : σ} {e : Error}
    (hopen : v.openZone w = (.error e, w₁)) (hother : ∃ r ∈ requests, r ≠ .invalidate) :
    (run { view := v, world := w } requests).view = { v with status := .unusable e.message } ∧
      (run { view := v, world := w } requests).world = w₁ := by
  obtain ⟨before, first, later, rfl, hbefore, hfirst⟩ := Request.exists_first hother
  obtain ⟨hview, hworld⟩ := run_of_invalidate (t := { view := v, world := w }) hnew hbefore
  rw [run_append_cons]
  generalize run { view := v, world := w } before = t at hview hworld
  have hrespond : t.view.respond t.world first =
      (first.refusal e, { v with status := .unusable e.message }, w₁) := by
    rw [hview, hworld]
    exact respond_of_untouched_error hnew hfirst hopen
  have hstep : (t.step first).view = { v with status := .unusable e.message } :=
    congrArg (·.2.1) hrespond
  have hunusable : (t.step first).view.status = .unusable e.message := by rw [hstep]
  obtain ⟨hlater, hlaterworld⟩ := run_of_unusable hunusable later
  exact ⟨hlater.trans hstep, hlaterworld.trans (congrArg (·.2.2) hrespond)⟩

theorem exists_run_opened (hnew : v.status = .untouched) {w w₁ : σ}
    (hopen : v.openZone w = (.ok o, w₁)) (hother : ∃ r ∈ requests, r ≠ .invalidate) :
    ∃ before later, requests = before ++ later ∧ (∀ r ∈ before, r = .invalidate) ∧
      (run { view := v, world := w } requests).view =
        (run { view := v.keep o, world := w₁ } later).view ∧
      (run { view := v, world := w } requests).world =
        (run { view := v.keep o, world := w₁ } later).world := by
  obtain ⟨before, first, later, rfl, hbefore, hfirst⟩ := Request.exists_first hother
  obtain ⟨hview, hworld⟩ := run_of_invalidate (t := { view := v, world := w }) hnew hbefore
  refine ⟨before, first :: later, rfl, hbefore, ?_⟩
  rw [run_append_cons]
  generalize run { view := v, world := w } before = t at hview hworld
  have hrespond : t.view.respond t.world first = (v.keep o).respond w₁ first := by
    rw [hview, hworld]
    exact respond_of_untouched hnew hfirst hopen
  exact run_congr (t := t.step first) (congrArg (·.2.1) hrespond) (congrArg (·.2.2) hrespond) later

end Tour

/-- The view refuses whatever it is asked for, and does nothing in the world for it. -/
structure Refuses (v : View σ) (reason : String) : Prop where
  index_eq : v.index? = none
  levels_eq : v.levels? = none
  notes_eq : v.notes? = none
  respond_eq : ∀ r : Request, r ≠ .invalidate → ∀ w,
    v.respond w r = (r.refusal { failure := .unusable reason }, v, w)

/-- The view is open over `index`: opening it again only counts its lines, and what it is asked for
would come out the same with any other instruction set, so it does not open a decoder. -/
structure IsOpenOver (v : View σ) (index : Index) : Prop where
  index_eq : v.index? = some index
  initialise_eq : ∃ levels, v.levels? = some levels ∧
    levels.size = index.lineCount + levels.labelCount ∧
    ∀ w, v.initialise w = (.ok levels.size, v, w)
  respond_eq : ∀ (other : InstructionSet σ) (r : Request) (w : σ),
    ({ v with instructionSet := other } : View σ).respond w r =
      ((v.respond w r).1, { (v.respond w r).2.1 with instructionSet := other }, (v.respond w r).2.2)

theorem refuses_of_unusable {reason : String} (h : v.status = .unusable reason) :
    v.Refuses reason where
  index_eq := by rw [index?, open?, h]; rfl
  levels_eq := by rw [levels?, open?, h]; rfl
  notes_eq := by rw [notes?, open?, h]; rfl
  respond_eq r hr w := respond_of_unusable h hr w

theorem isOpenOver_of_ready (h : v.status = .ready o)
    (hlevels : o.levels.HasInstructions o.index.lineCount) : v.IsOpenOver o.index where
  index_eq := by rw [index?, open?, h]; rfl
  initialise_eq := by
    refine ⟨o.levels, by rw [levels?, open?, h]; rfl, hlevels.size_eq, fun w => ?_⟩
    rw [initialise, ensureOpen_of_ready h]
  respond_eq other r w := respond_with_instructionSet other h r w

/-- How a view fares that was untouched in the world `w`, at the end of a tour on which `requests`
were made. -/
structure LifeCycle (v : View σ) (w : σ) (requests : List Request) (t : Tour σ) : Prop where
  waits : (∀ r ∈ requests, r = .invalidate) → t.view = v ∧ t.world = w
  first_error : (∀ r ∈ requests, r = .invalidate) → ∀ e w₁, v.openZone w = (.error e, w₁) →
    ∀ first : Request, first ≠ .invalidate → t.view.respond t.world first =
      (first.refusal e, { v with status := .unusable e.message }, w₁)
  first_ok : (∀ r ∈ requests, r = .invalidate) → ∀ o w₁, v.openZone w = (.ok o, w₁) →
    ∀ first : Request, first ≠ .invalidate →
      t.view.respond t.world first = (v.keep o).respond w₁ first
  later_error : (∃ r ∈ requests, r ≠ .invalidate) → ∀ e w₁, v.openZone w = (.error e, w₁) →
    t.view = { v with status := .unusable e.message } ∧ t.world = w₁ ∧ t.view.Refuses e.message
  later_ok : (∃ r ∈ requests, r ≠ .invalidate) → ∀ o w₁, v.openZone w = (.ok o, w₁) →
    (∃ o', t.view = v.keep o') ∧ t.view.IsOpenOver o.index

/-- Whatever the source, the instruction set and its decoders answer, and whatever is asked for, a
view is opened once, by the first request that needs it; it is unusable ever after if that fails, and
open over the same index else. -/
theorem Tour.run_lifeCycle (hnew : v.status = .untouched) (w : σ) (requests : List Request) :
    v.LifeCycle w requests (run { view := v, world := w } requests) where
  waits hall := run_of_invalidate (t := { view := v, world := w }) hnew hall
  first_error hall e w₁ hopen first hfirst := by
    obtain ⟨hview, hworld⟩ := run_of_invalidate (t := { view := v, world := w }) hnew hall
    rw [hview, hworld]
    exact respond_of_untouched_error hnew hfirst hopen
  first_ok hall o w₁ hopen first hfirst := by
    obtain ⟨hview, hworld⟩ := run_of_invalidate (t := { view := v, world := w }) hnew hall
    rw [hview, hworld]
    exact respond_of_untouched hnew hfirst hopen
  later_error hother e w₁ hopen := by
    obtain ⟨hview, hworld⟩ := run_of_openZone_error hnew hopen hother
    exact ⟨hview, hworld, refuses_of_unusable (by rw [hview])⟩
  later_ok hother o w₁ hopen := by
    obtain ⟨-, later, -, -, hview, -⟩ := exists_run_opened hnew hopen hother
    obtain ⟨o', hrun, hcontinues⟩ := run_of_ready (t := { view := v.keep o, world := w₁ }) rfl later
    have hlevels := hcontinues.levels (openZone_hasInstructions hopen)
    rw [hview, hrun, ← hcontinues.index_eq]
    rw [← hcontinues.index_eq] at hlevels
    exact ⟨⟨o', rfl⟩, isOpenOver_of_ready rfl hlevels⟩

def undecodable : View Unit :=
  { Scene.padded.view with
    zone := { Index.paddedZone with arch := .other "arm" }
    instructionSet := {
      supports _ := false
      openDecoder _ w := (.ok Decoding.zerosAsFiller.decoder, w) } }

/-- One view cannot be opened, and another one is. -/
theorem Tour.run_lifeCycle_undecodable :
    (undecodable.LifeCycle () [.invalidate, .initialise]
        (run { view := undecodable, world := () } [.invalidate, .initialise]) ∧
      (run { view := undecodable, world := () } [.invalidate, .initialise]).view.Refuses
        "unsupported architecture: arm") ∧
      (run { view := Scene.padded.view, world := () } [.render 0 2, .deepScan]).view.IsOpenOver
        Scene.padded.index := by
  constructor
  · have hlife := run_lifeCycle (v := undecodable) rfl () [.invalidate, .initialise]
    have hother : ∃ r ∈ [Request.invalidate, .initialise], r ≠ .invalidate :=
      ⟨.initialise, by simp, nofun⟩
    exact ⟨hlife, (hlife.later_error hother _ _ rfl).2.2⟩
  · have hd : Scene.padded.decoding.Regular := Decoding.zerosAsFiller_regular
    obtain ⟨o, w₁, hopen⟩ := exists_openZone (w := ()) Scene.padded.view_isOf hd
      ⟨by decide, by decide⟩ rfl rfl
    have hlife := run_lifeCycle (v := Scene.padded.view) rfl () [.render 0 2, .deepScan]
    have hother : ∃ r ∈ [Request.render 0 2, .deepScan], r ≠ .invalidate :=
      ⟨.deepScan, by simp, nofun⟩
    rw [← (openZone_agrees Scene.padded.view_isOf hd hopen).2.index_eq]
    exact (hlife.later_ok hother o w₁ hopen).2

end View
end Disassembly
