import Disassembly.Proofs.Index.Built
import Disassembly.Proofs.Line.Arrows
import Disassembly.Proofs.View.Operations

/-! # Views have no history

Whatever a view has been asked for, in whatever order, rendering depends on the lines that are asked
for and on whether the labels have been looked for, and on nothing else. The notes are those of the
lines that have been shown since.
-/

namespace Disassembly

variable {σ : Type}

namespace Scene

variable (c : Scene) (scanned : Bool)

theorem branchLine_withoutRails (value : Nat) {line : Line} (hline : line.withoutRails = line) :
    (c.branchLine scanned value line).withoutRails = c.branchLine scanned value line := by
  have hrails : line.rails = {} := congrArg Line.rails hline.symm
  rw [branchLine]
  split <;> rw [Line.withoutRails, ← hrails]

theorem instructionLine_withoutRails (number : Nat) (i : Instruction) :
    (c.instructionLine scanned number i).withoutRails = c.instructionLine scanned number i := by
  rw [instructionLine]
  split
  · exact c.branchLine_withoutRails scanned _ rfl
  · exact c.branchLine_withoutRails scanned _ rfl
  · rfl
  · rfl

theorem record_withoutRails (number : Nat) :
    (c.record scanned number).withoutRails = c.record scanned number := by
  rw [record]
  split
  · rfl
  · split
    · exact c.instructionLine_withoutRails scanned number _
    · rfl

theorem window_withoutRails (start count : Nat) :
    (c.window scanned start count).map Line.withoutRails =
      (List.range' start (min (start + count) (c.levels scanned).size - start)).map
        (c.record scanned) := by
  have hplain (ks : List Nat) :
      (ks.map (c.record scanned)).map Line.withoutRails = ks.map (c.record scanned) := by
    rw [List.map_map]
    exact List.map_congr_left fun k _ => c.record_withoutRails scanned k
  rw [window]
  split
  · rw [layoutArrows_withoutRails, hplain]
  · exact hplain _

theorem record_of_mem_window {start count : Nat} {l : Line}
    (h : l ∈ c.window scanned start count) :
    (∀ e, l.kind ≠ .failed e) ∧ l.withoutRails = c.record scanned l.number := by
  have hmem := List.mem_map_of_mem (f := Line.withoutRails) h
  rw [window_withoutRails] at hmem
  obtain ⟨k, hk, hl⟩ := List.mem_map.1 hmem
  obtain ⟨hle, hlt⟩ := List.mem_range'_1.1 hk
  obtain ⟨hnumber, hkind⟩ := @record_number c scanned k (by omega)
  have hlnumber : l.number = k := by
    rw [← hnumber, hl]
    rfl
  refine ⟨fun e => ?_, ?_⟩
  · have hsame : l.kind = (c.record scanned k).kind := by
      rw [hl]
      rfl
    rw [hsame]
    exact hkind e
  · rw [← hl, hlnumber]

theorem window_numbers (start count : Nat) :
    (c.window scanned start count).map (·.number) =
      List.range' start (min (start + count) (c.levels scanned).size - start) := by
  have hnumbers : (c.window scanned start count).map (·.number) =
      ((c.window scanned start count).map Line.withoutRails).map (·.number) := by
    rw [List.map_map]
    rfl
  rw [hnumbers, window_withoutRails, List.map_map]
  refine (List.map_congr_left fun k hk => ?_).trans (List.map_id _)
  obtain ⟨hle, hlt⟩ := List.mem_range'_1.1 hk
  exact (c.record_number (by omega)).1

/-- Rails aside, a window is made of two that meet. -/
theorem window_append (start n m : Nat) :
    (c.window scanned start (n + m)).map Line.withoutRails =
      (c.window scanned start n).map Line.withoutRails ++
        (c.window scanned (start + n) m).map Line.withoutRails := by
  simp only [window_withoutRails, ← List.map_append]
  by_cases hn : start + n ≤ (c.levels scanned).size
  · rw [Nat.min_eq_left hn, Nat.add_sub_cancel_left, List.range'_append_1]
    congr 2
    omega
  · -- the first window is all that there is
    rw [show min (start + n + m) (c.levels scanned).size - (start + n) = 0 by omega,
      List.range'_zero, List.append_nil]
    congr 2
    omega

def view : View Unit where
  zone := c.zone
  config := c.config
  instructionSet := { supports _ := true, openDecoder _ w := (.ok c.decoding.decoder, w) }
  source := .ofBytes c.content
  env := c.env

theorem view_isOf : c.view.IsOf c where
  zone_eq := rfl
  config_eq := rfl
  env_eq := rfl
  source := Source.ofBytes_serves c.content
  decoder w dec w' h := by
    cases h
    exact c.decoding.decoder_follows

theorem exists_initialise_view (hd : c.decoding.Regular) (hz : c.zone.LiesIn c.content) :
    ∃ n, (c.view.initialise ()).1 = .ok n := by
  obtain ⟨o, w', hopen⟩ := View.exists_openZone c.view_isOf hd hz rfl rfl
  refine ⟨o.levels.size, ?_⟩
  rw [View.initialise, View.ensureOpen, show c.view.status = .untouched from rfl]
  dsimp only
  rw [hopen]

def interruptedView : View Interruptions where
  zone := c.zone
  config := c.config
  instructionSet := { supports _ := true, openDecoder _ w := (.ok c.decoding.interrupted, w) }
  source := .interrupted c.content
  env := c.env

def padded : Scene where
  zone := Index.paddedZone
  content := Index.paddedCode
  decoding := .zerosAsFiller
  config := { fillerRunLimit := 2, scanOnStart := false }

end Scene

inductive View.Request where
  | render (start count : Nat)
  | display (start count : Nat) (opts : DisplayOptions)
  | follow (line : Nat)
  | lineOfOffset (offset : Nat)
  | exportText
  | invalidate
  | initialise
  | deepScan

namespace View.Request

def shown (size : Nat) : Request → List Nat
  | .render start count => List.range' start (min (start + count) size - start)
  | .display start count _ => List.range' start (min (start + count) size - start)
  | _ => []

def isScan : Request → Bool
  | .deepScan => true
  | _ => false

end View.Request

/-- Whether the labels have been looked for after some requests: then, or when the zone was opened. -/
def Scene.isScannedAfter (c : Scene) (requests : List View.Request) : Bool :=
  c.config.scanOnStart || requests.any (·.isScan)

namespace View

def answer (v : View σ) (w : σ) : Request → View σ × σ
  | .render start count => (v.render start count w).2
  | .display start count opts => (v.display start count opts w).2
  | .follow line => (v.follow line w).2
  | .lineOfOffset offset => (v.lineOfOffset offset w).2
  | .exportText => (v.exportText w).2.2
  | .invalidate => (v.invalidate, w)
  | .initialise => (v.initialise w).2
  | .deepScan => (v.deepScan w).2

/-- A view in its world, with the lines shown since the labels were looked for. -/
structure Tour (σ : Type) where
  view : View σ
  world : σ
  shown : List Nat := []

namespace Tour

def start (v : View σ) (w : σ) : Tour σ where
  view := (v.initialise w).2.1
  world := (v.initialise w).2.2

/-- Answers one request. Lines move when the labels are looked for. -/
def step (t : Tour σ) (request : Request) : Tour σ :=
  let (view, world) := t.view.answer t.world request
  let kept := if view.isScanned = t.view.isScanned then t.shown else []
  { view, world, shown := kept ++ request.shown view.lineCount }

def run (t : Tour σ) (requests : List Request) : Tour σ :=
  requests.foldl step t

def render (t : Tour σ) (start count : Nat) : Except Error (List Line) :=
  (t.view.render start count t.world).1

/-- What is shown and noted is what the scene has: each line by itself, rails aside, and a note for
each line that was shown. -/
structure Shows (t : Tour σ) (c : Scene) (scanned : Bool) : Prop where
  render_ok : ∀ start count, ∃ lines, t.render start count = .ok lines ∧
    lines.map (·.number) =
      List.range' start (min (start + count) t.view.lineCount - start) ∧
    ∀ l ∈ lines, (∀ e, l.kind ≠ .failed e) ∧ l.withoutRails = c.record scanned l.number
  render_append : ∀ start n m, ∃ whole front back, t.render start (n + m) = .ok whole ∧
    t.render start n = .ok front ∧ t.render (start + n) m = .ok back ∧
    whole.map Line.withoutRails = front.map Line.withoutRails ++ back.map Line.withoutRails
  notes : ∃ notes, t.view.notes? = some notes ∧
    (∀ k, notes.comments.get? k = if k ∈ t.shown then c.comment? scanned k else none) ∧
    ∀ k, notes.calls.get? k = if k ∈ t.shown then c.call? scanned k else none

section Scene

variable {t : Tour σ} {c : Scene}

/-- A request keeps a view in agreement with its scene. -/
theorem step_agrees (hd : c.decoding.Regular) (h : t.view.Agrees c t.shown) (request : Request) :
    (t.step request).view.isScanned = (t.view.isScanned || request.isScan) ∧
      (t.step request).view.Agrees c (t.step request).shown := by
  -- unless the labels are looked for, what has been shown stays
  have hkeep : ∀ {v : View σ} {more : List Nat}, v.isScanned = t.view.isScanned →
      v.Agrees c (t.shown ++ more) → v.isScanned = (t.view.isScanned || false) ∧
        v.Agrees c ((if v.isScanned = t.view.isScanned then t.shown else []) ++ more) := by
    intro v more hscanned hv
    rw [if_pos hscanned, Bool.or_false]
    exact ⟨hscanned, hv⟩
  have hnothing : ∀ {v : View σ}, v.isScanned = t.view.isScanned ∧ v.Agrees c t.shown →
      v.isScanned = (t.view.isScanned || false) ∧
        v.Agrees c ((if v.isScanned = t.view.isScanned then t.shown else []) ++ []) := by
    rintro v ⟨hscanned, hv⟩
    exact hkeep hscanned (by rwa [List.append_nil])
  cases request with
  | render start count =>
    obtain ⟨hscanned, hrender⟩ := render_agrees hd h start count t.world
    exact hkeep hscanned hrender
  | display start count opts =>
    obtain ⟨hscanned, hrender⟩ := render_agrees hd h start count t.world
    rw [← display_view start count opts] at hscanned hrender
    exact hkeep hscanned hrender
  | follow line => exact hnothing (follow_agrees h line t.world)
  | lineOfOffset offset => exact hnothing (lineOfOffset_agrees h offset t.world)
  | exportText => exact hnothing (exportText_agrees h t.world)
  | invalidate => exact hnothing (invalidate_agrees h)
  | initialise => exact hnothing (initialise_again h t.world)
  | deepScan =>
    obtain ⟨hscanned, hscan⟩ := deepScan_agrees hd h t.world
    refine ⟨hscanned.trans (Bool.or_true _).symm, ?_⟩
    have hkept : (if (t.view.deepScan t.world).2.1.isScanned = t.view.isScanned then t.shown
        else []) = if t.view.isScanned then t.shown else [] := by
      simp only [hscanned, eq_comm (a := true)]
    have hshown : (t.step .deepScan).shown = if t.view.isScanned then t.shown else [] :=
      (List.append_nil _).trans hkept
    rw [hshown]
    exact hscan

theorem run_agrees (hd : c.decoding.Regular) (h : t.view.Agrees c t.shown)
    (requests : List Request) :
    (t.run requests).view.isScanned = (t.view.isScanned || requests.any (·.isScan)) ∧
      (t.run requests).view.Agrees c (t.run requests).shown := by
  induction requests generalizing t with
  | nil =>
    rw [List.any_nil, Bool.or_false]
    exact ⟨rfl, h⟩
  | cons request requests ih =>
    obtain ⟨hscanned, hstep⟩ := step_agrees hd h request
    obtain ⟨hrun, h'⟩ := ih hstep
    rw [hscanned, Bool.or_assoc] at hrun
    exact ⟨hrun, h'⟩

theorem shows_of_agrees (hd : c.decoding.Regular) (h : t.view.Agrees c t.shown) :
    (∀ start count, t.render start count = .ok (c.window t.view.isScanned start count)) ∧
      t.Shows c t.view.isScanned := by
  obtain ⟨o, hready, ho⟩ := h.opened
  have hrender (start count : Nat) :
      t.render start count = .ok (c.window t.view.isScanned start count) := by
    obtain ⟨v', w', hv', -⟩ := render_eq hd h start count t.world
    rw [render, hv']
  have hcount : t.view.lineCount = (c.levels t.view.isScanned).size := by
    rw [lineCount_of_ready hready, isScanned_of_ready hready]
    exact congrArg Level.stop ho.root_eq
  refine ⟨hrender, fun start count => ?_, fun start n m => ?_, o.notes, ?_, ?_⟩
  · rw [hcount]
    exact ⟨_, hrender start count, c.window_numbers _ start count,
      fun l hl => c.record_of_mem_window _ hl⟩
  · exact ⟨_, _, _, hrender start (n + m), hrender start n, hrender (start + n) m,
      c.window_append _ start n m⟩
  · rw [notes?, open?, hready]
    rfl
  · rw [isScanned_of_ready hready]
    exact ⟨ho.notes.comments, ho.notes.calls⟩

variable {v : View σ} {w : σ}

theorem run_shows (hv : v.IsOf c) (hd : c.decoding.Regular) (hnew : v.status = .untouched) {n : Nat}
    (hopen : (v.initialise w).1 = .ok n) (requests : List Request) :
    (∀ start count, ((Tour.start v w).run requests).render start count =
        .ok (c.window (c.isScannedAfter requests) start count)) ∧
      ((Tour.start v w).run requests).Shows c (c.isScannedAfter requests) := by
  obtain ⟨hstart, hagrees⟩ := initialise_agrees hv hd hnew hopen
  obtain ⟨hscanned, hrun⟩ := @run_agrees σ (Tour.start v w) c hd hagrees requests
  rw [show (Tour.start v w).view.isScanned = c.config.scanOnStart from hstart] at hscanned
  rw [Scene.isScannedAfter, ← hscanned]
  exact shows_of_agrees hd hrun

end Scene

section Pair

variable {σ₁ σ₂ : Type} {v₁ : View σ₁} {v₂ : View σ₂} {c : Scene}

/-- Where two tours of a scene have both looked for the labels, or neither has, the same lines are
rendered and noted, whatever was asked for on the way. -/
theorem run_renders_alike (hv₁ : v₁.IsOf c) (hv₂ : v₂.IsOf c) (hd : c.decoding.Regular)
    (hnew₁ : v₁.status = .untouched) (hnew₂ : v₂.status = .untouched) {n₁ n₂ : Nat} {w₁ : σ₁}
    {w₂ : σ₂} (hopen₁ : (v₁.initialise w₁).1 = .ok n₁) (hopen₂ : (v₂.initialise w₂).1 = .ok n₂)
    {requests₁ requests₂ : List Request}
    (hscan : c.isScannedAfter requests₁ = c.isScannedAfter requests₂) :
    (∀ start count, ((Tour.start v₁ w₁).run requests₁).render start count =
        ((Tour.start v₂ w₂).run requests₂).render start count) ∧
      ((Tour.start v₁ w₁).run requests₁).Shows c (c.isScannedAfter requests₁) ∧
      ((Tour.start v₂ w₂).run requests₂).Shows c (c.isScannedAfter requests₁) := by
  obtain ⟨hrender₁, hshows₁⟩ := run_shows hv₁ hd hnew₁ hopen₁ requests₁
  obtain ⟨hrender₂, hshows₂⟩ := run_shows hv₂ hd hnew₂ hopen₂ requests₂
  rw [← hscan] at hrender₂ hshows₂
  exact ⟨fun start count => (hrender₁ start count).trans (hrender₂ start count).symm, hshows₁,
    hshows₂⟩

/-- One of the tours renders before the labels are looked for, the other one does not. -/
theorem run_renders_alike_padded :
    (∀ start count,
      ((Tour.start Scene.padded.view ()).run [.render 0 2, .deepScan, .follow 0]).render start count =
        ((Tour.start Scene.padded.view ()).run [.deepScan, .exportText]).render start count) ∧
      ((Tour.start Scene.padded.view ()).run [.render 0 2, .deepScan, .follow 0]).Shows
        Scene.padded true ∧
      ((Tour.start Scene.padded.view ()).run [.deepScan, .exportText]).Shows Scene.padded true := by
  obtain ⟨n, hopen⟩ := Scene.padded.exists_initialise_view Decoding.zerosAsFiller_regular
    ⟨by decide, by decide⟩
  exact run_renders_alike Scene.padded.view_isOf Scene.padded.view_isOf
    Decoding.zerosAsFiller_regular rfl rfl hopen hopen rfl

end Pair

end Tour
end View
end Disassembly
