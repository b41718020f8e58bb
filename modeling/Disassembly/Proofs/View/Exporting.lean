import Disassembly.Proofs.FlatText
import Disassembly.Proofs.View.Following
import Disassembly.Proofs.View.LifeCycle

/-! # Exporting what is viewed

The flat text comes from a sweep of its own, over the bytes of the indexed code alone and cut after as
many instructions as there are lines. These are the instructions that a seeker finds line by line, so
text and view show the same program. What a view replies once it has been opened depends on its scene
and on whether the labels have been looked for, and on nothing else that has been asked for; so an
export leaves no trace.
-/

namespace Disassembly

variable {σ : Type}

/-- As long as the decoder does not fail, nothing cuts short instructions that are there. -/
theorem Sweep.takeOnto_fault {dec : Decoder σ} {d : Decoding} (hdec : dec.Follows d noFaults)
    (seen : List Instruction) {n : Nat} {s : Sweep}
    (hn : n ≤ (d.linear s.rest.toList s.address).length) (w : σ) :
    (takeOnto dec seen n s w).2.1 = none := by
  induction n generalizing seen s w with
  | zero => rfl
  | succ n ih =>
    rw [takeOnto]
    split
    · rfl
    · rename_i h
      rcases next_of_quiet hdec h rfl with ⟨i, hi, -⟩ | ⟨-, hnil⟩
      · cases hi
      · rw [hnil] at hn
        exact absurd hn (Nat.not_succ_le_zero n)
    · rename_i h
      rcases next_of_quiet hdec h rfl with ⟨j, -, hcons⟩ | ⟨hne, -⟩
      · rw [hcons, List.length_cons] at hn
        exact ih _ (Nat.le_of_succ_le_succ hn) _
      · exact absurd rfl (hne _)

namespace Export

variable {c : Scene} {source : Source σ} {dec : Decoder σ}

/-- A sweep over the indexed code gives the instructions of the scene. -/
theorem take_indexed (hd : c.decoding.Regular) (hz : c.zone.LiesIn c.content)
    (hdec : dec.Follows c.decoding noFaults) (w : σ) :
    ∃ w', (Sweep.ofArray (c.content.extract c.index.trueStart c.index.codeEnd)
      c.index.trueStart).take dec c.index.lineCount w = (c.instructions, none, w') := by
  have hlinear := Scene.linear_indexed hd hz
  rw [← Code.toList_ofArray] at hlinear
  have htake := Sweep.take_of_noFaults hdec c.index.lineCount (Sweep.ofArray
    (c.content.extract c.index.trueStart c.index.codeEnd) c.index.trueStart) w
  rw [Sweep.ofArray, hlinear] at htake
  rw [show c.index.lineCount = c.instructions.length from rfl, List.take_length] at htake
  refine ⟨_, Prod.ext htake (Prod.ext (Sweep.takeOnto_fault hdec [] ?_ w) rfl)⟩
  rw [Sweep.ofArray, hlinear]
  exact Nat.le_refl c.instructions.length

theorem write_eq (hd : c.decoding.Regular) (hz : c.zone.LiesIn c.content)
    (hsource : source.Serves c.content noFaults) (hdec : dec.Follows c.decoding noFaults) (w : σ) :
    ∃ w', write c.zone source dec c.index w =
      (flatText c.zone c.index c.instructions, none, w') := by
  rw [write]
  cases hread : source.read c.index.trueStart (c.index.codeEnd - c.index.trueStart) w with
  | mk r w₁ =>
    rcases hsource.read_cases_of_slice (Scene.sliceOf_indexed hz) hread with ⟨rfl, -⟩ | ⟨-, hlt⟩
    · obtain ⟨w', htake⟩ := take_indexed hd hz hdec w₁
      dsimp only
      rw [htake]
      refine ⟨w', ?_⟩
      rw [flatText, String.append_assoc]
      rfl
    · exact absurd hlt (Nat.lt_irrefl _)

end Export

namespace Scene

variable (c : Scene)

def textFor? (scanned : Bool) (number : Nat) : Option String :=
  c.comment? scanned number <|> (c.call? scanned number).map ("calls " ++ ·)

def reply (scanned : Bool) : View.Request → View.Reply
  | .render start count => .lines (.ok (c.window scanned start count))
  | .display start count opts => .shown (.ok ((c.window scanned start count).map fun l =>
      l.compose opts (c.textFor? scanned l.number)))
  | .follow line => .target <|
      if line < (c.levels scanned).size then
        .ok ((c.branchTarget? scanned line).bind (c.targetLine scanned))
      else .error ((c.levels scanned).outOfRange line)
  | .lineOfOffset offset => .count <|
      match c.targetLine scanned offset with
      | some line => .ok line
      | none => .error (Error.during .seeking { failure := .offsetOutOfRange offset })
  | .exportText => .text (Export.flatText c.zone c.index c.instructions) none
  | .invalidate => .nothing
  | .initialise => .count (.ok (c.levels scanned).size)
  | .deepScan => .count (.ok (if scanned then 0 else c.targets.length))

end Scene

namespace View

variable {v : View σ} {c : Scene} {shown : List Nat}

theorem display_eq (hd : c.decoding.Regular) (h : v.Agrees c shown) (start count : Nat)
    (opts : DisplayOptions) (w : σ) :
    (v.display start count opts w).1 = .ok ((c.window v.isScanned start count).map fun l =>
      l.compose opts (c.textFor? v.isScanned l.number)) := by
  obtain ⟨v', w', hrender, hscanned, hcount, h'⟩ := render_eq hd h start count w
  obtain ⟨o, hready, ho⟩ := h'.opened
  have hsize := lineCount_eq h
  rw [display, hrender]
  dsimp only
  apply congrArg
  apply List.map_congr_left
  intro l hl
  -- the line has just been shown, so everything about it is noted
  have hnumber := List.mem_map_of_mem (f := Line.number) hl
  rw [c.window_numbers, ← hsize] at hnumber
  have hnotes : v'.notes? = some o.notes := by
    rw [notes?, open?, hready]
    rfl
  have hmem := List.mem_append_right shown hnumber
  rw [hnotes, Option.getD_some, Notes.textFor?, ho.notes.comments, ho.notes.calls, if_pos hmem,
    if_pos hmem, ← isScanned_of_ready hready, hscanned]
  rfl

theorem follow_of_size_le (h : v.Agrees c shown) {number : Nat} (hnumber : v.lineCount ≤ number)
    (w : σ) : (v.follow number w).1 = .error ((c.levels v.isScanned).outOfRange number) := by
  obtain ⟨o, hready, ho⟩ := h.opened
  have hsize := lineCount_eq h
  rw [lineCount_of_ready hready] at hnumber hsize
  rw [follow, ensureOpen_of_ready hready]
  dsimp only
  rw [Levels.peek, if_pos hnumber, Levels.outOfRange, Levels.outOfRange, hsize]

theorem lineOfOffset_of_not_covers (h : v.Agrees c shown) {offset : Nat}
    (hcovers : c.index.covers offset = false) (w : σ) :
    (v.lineOfOffset offset w).1 =
      .error (Error.during .seeking { failure := .offsetOutOfRange offset }) := by
  obtain ⟨o, hready, ho⟩ := h.opened
  rw [← ho.index_eq] at hcovers
  rw [lineOfOffset, ensureOpen_of_ready hready]
  dsimp only
  rw [Seeker.byOffset_of_not_covers hcovers]
  rfl

theorem exportText_eq (hd : c.decoding.Regular) (h : v.Agrees c shown) (w : σ) :
    (v.exportText w).1 = Export.flatText c.zone c.index c.instructions ∧
      (v.exportText w).2.1 = none := by
  obtain ⟨o, hready, ho⟩ := h.opened
  obtain ⟨w', hwrite⟩ := Export.write_eq hd ho.lies h.isOf.source ho.decoder w
  rw [exportText, ensureOpen_of_ready hready]
  dsimp only
  rw [h.isOf.zone_eq, ho.index_eq, hwrite]
  exact ⟨rfl, rfl⟩

/-- A view that agrees with its scene replies what the scene does. -/
theorem reply_eq (hd : c.decoding.Regular) (h : v.Agrees c shown) (request : Request) (w : σ) :
    v.reply w request = c.reply v.isScanned request := by
  have hsize := lineCount_eq h
  cases request with
  | render start count =>
    obtain ⟨v', w', hrender, -⟩ := render_eq hd h start count w
    rw [reply, Scene.reply, hrender]
  | display start count opts => rw [reply, Scene.reply, display_eq hd h]
  | follow line =>
    rw [reply, Scene.reply]
    by_cases hline : line < v.lineCount
    · rw [follow_eq hd h hline, if_pos (hsize ▸ hline)]
    · rw [follow_of_size_le h (Nat.le_of_not_lt hline), if_neg (hsize ▸ hline)]
  | lineOfOffset offset =>
    rw [reply, Scene.reply]
    cases htarget : c.targetLine v.isScanned offset with
    | some line => rw [(lineOfOffset_eq_ok_iff hd h w offset line).2 htarget]
    | none =>
      have hcovers : c.index.covers offset = false := by
        rw [← Bool.not_eq_true, ← Scene.isSome_targetLine_iff hd.echoes v.isScanned, htarget]
        exact Bool.false_ne_true
      rw [lineOfOffset_of_not_covers h hcovers]
  | exportText =>
    obtain ⟨htext, hfault⟩ := exportText_eq hd h w
    rw [reply, Scene.reply, htext, hfault]
  | invalidate => rfl
  | initialise =>
    obtain ⟨o, hready, -⟩ := h.opened
    rw [reply, Scene.reply, ← hsize, lineCount_of_ready hready, initialise,
      ensureOpen_of_ready hready]
  | deepScan =>
    obtain ⟨o, hready, ho⟩ := h.opened
    obtain ⟨o', w', hscan, -⟩ := OpenZone.scan_agrees hd h.isOf.source ho w
    rw [reply, Scene.reply, deepScan_of_ready hready, h.isOf.zone_eq, hscan,
      isScanned_of_ready hready]

namespace Tour

/-- What a view replies that has not been opened before depends on the scene, and on whether the
labels have been looked for, and on nothing else that has been asked for. -/
theorem run_reply (hv : v.IsOf c) (hd : c.decoding.Regular) (hnew : v.status = .untouched)
    {o : OpenZone σ} {w w₁ : σ} (hopen : v.openZone w = (.ok o, w₁)) (requests : List Request)
    (request : Request) :
    (run { view := v, world := w } requests).reply request =
      c.reply (c.isScannedAfter requests) request := by
  obtain ⟨hstart, ho⟩ := openZone_agrees hv hd hopen
  have hopened := keep_agrees hv ho
  have hnone : ∀ {rs : List Request}, (∀ r ∈ rs, r = .invalidate) →
      rs.any (·.isScan) = false := fun hall => by
    rw [List.any_eq_false]
    intro r hr
    rw [hall r hr]
    exact Bool.false_ne_true
  by_cases hother : ∃ r ∈ requests, r ≠ .invalidate
  · obtain ⟨before, later, rfl, hbefore, hview, hworld⟩ := exists_run_opened hnew hopen hother
    obtain ⟨hscanned, h⟩ := run_agrees (t := { view := v.keep o, world := w₁ }) hd hopened later
    rw [reply, hview, hworld, reply_eq hd h, hscanned, isScanned_of_ready (v := v.keep o) rfl, hstart,
      Scene.isScannedAfter, List.any_append, hnone hbefore, Bool.false_or]
  · have hall : ∀ r ∈ requests, r = .invalidate := fun r hr =>
      Classical.not_not.1 fun hne => hother ⟨r, hr, hne⟩
    obtain ⟨hview, hworld⟩ := run_of_invalidate (t := { view := v, world := w }) hnew hall
    by_cases hrequest : request = .invalidate
    · rw [hrequest]
      rfl
    · have hrespond := respond_of_untouched hnew hrequest hopen
      have hreply : v.reply w request = (v.keep o).reply w₁ request := congrArg (·.1) hrespond
      rw [reply, hview, hworld, hreply, reply_eq hd hopened, isScanned_of_ready (v := v.keep o) rfl,
        hstart, Scene.isScannedAfter, hnone hall, Bool.or_false]

end Tour

end View

/-- The text written over the index has these instructions, a line each, and they are what seekers
find on the lines whatever they have been asked for. -/
structure Export.ListsProgram (z : Zone) (source : Source σ) (dec : Decoder σ) (index : Index)
    (instructions : List Instruction) : Prop where
  length_eq : instructions.length = index.lineCount
  write_eq : ∀ w, ∃ w', write z source dec index w = (flatText z index instructions, none, w')
  isFlatText : IsFlatText z index instructions (flatText z index instructions)
  byLine_eq : ∀ requests w₀ w line, line < index.lineCount → ∃ seek s w',
    (Seeker.Session.run source dec index requests { seeker := .start z.stop } w₀).1.seeker.byLine
        source dec index line w = (.ok seek, s, w') ∧
      instructions[line]? = some seek.instruction

/-- The view writes `text` whenever it is asked to, and doing so does not show in anything that it
replies later. -/
structure View.ExportsOnly (v : View σ) (w : σ) (text : String) : Prop where
  exportText_eq : ∀ before, (Tour.run { view := v, world := w } before).reply .exportText =
    .text text none
  reply_eq : ∀ before later request,
    (Tour.run { view := v, world := w } (before ++ .exportText :: later)).reply request =
      (Tour.run { view := v, world := w } (before ++ later)).reply request

theorem Export.listsProgram {c : Scene} {source : Source σ} {dec : Decoder σ}
    (hd : c.decoding.Regular) (hz : c.zone.LiesIn c.content)
    (hsource : source.Serves c.content noFaults) (hdec : dec.Follows c.decoding noFaults) :
    ListsProgram c.zone source dec c.index c.instructions where
  length_eq := rfl
  write_eq w := Export.write_eq hd hz hsource hdec w
  isFlatText := flatText_isFlatText c.zone c.index c.instructions
  byLine_eq requests w₀ w line hline := by
    have hi := List.getElem?_eq_getElem (show line < c.instructions.length from hline)
    have hstart : (Seeker.Session.mk (.start c.zone.stop) []).Sound c.zone c.content c.decoding
      c.config := Seeker.Session.start_sound
    have hsound := Seeker.Session.run_sound hd hz hsource hdec hstart requests w₀
    obtain ⟨s, w', hseek, -⟩ :=
      Scene.byLine_of_instructions hd hz hsource hdec hsound.seeker hi w
    exact ⟨_, s, w', hseek, hi⟩

/-- A zone that is in its file and can be decoded has an index. What is written over the index, and by
any view of the zone at any time, is one text, made of the instructions that seekers find; and writing
it changes nothing that the view replies. -/
theorem View.Tour.run_exports {τ : Type} {c : Scene} {source : Source σ} {dec : Decoder σ}
    {v : View τ} (hz : c.zone.fault? = none) (hsize : c.zone.stop ≤ c.content.size)
    (hd : c.decoding.Regular) (hsource : source.Serves c.content noFaults)
    (hdec : dec.Follows c.decoding noFaults) (hv : v.IsOf c) (hnew : v.status = .untouched)
    (hsupports : v.instructionSet.supports c.zone.arch = true) {dec' : Decoder τ} {w w' : τ}
    (hopens : v.instructionSet.openDecoder c.zone.arch w = (.ok dec', w')) :
    ∃ index instructions, (∀ w, (Index.build c.zone source dec c.config w).1 = .ok index) ∧
      Export.ListsProgram c.zone source dec index instructions ∧
      v.ExportsOnly w (Export.flatText c.zone index instructions) := by
  have hlies : c.zone.LiesIn c.content := ⟨hz, hsize⟩
  obtain ⟨o, w₁, hopen⟩ := exists_openZone hv hd hlies hsupports hopens
  have hreply := run_reply hv hd hnew hopen
  refine ⟨c.index, c.instructions,
    fun w => Index.build_of_quiet hz hsize hd.echoes hsource hdec rfl,
    Export.listsProgram hd hlies hsource hdec, fun before => hreply before .exportText,
    fun before later request => ?_⟩
  -- to export is not to look for the labels
  have hscanned : c.isScannedAfter (before ++ .exportText :: later) =
      c.isScannedAfter (before ++ later) := by
    rw [Scene.isScannedAfter, Scene.isScannedAfter, List.any_append, List.any_append, List.any_cons]
    rfl
  rw [hreply, hreply, hscanned]

/-- The text of the padded code, which ends with a line for the zeros behind it. -/
theorem View.Tour.run_exports_padded :
    ∃ index instructions,
      (∀ w, (Index.build Scene.padded.zone (Source.ofBytes Scene.padded.content)
        Scene.padded.decoding.decoder Scene.padded.config w).1 = .ok index) ∧
      Export.ListsProgram Scene.padded.zone (Source.ofBytes Scene.padded.content)
        Scene.padded.decoding.decoder index instructions ∧
      Scene.padded.view.ExportsOnly () (Export.flatText Scene.padded.zone index instructions) :=
  run_exports (by decide) (by decide) Decoding.zerosAsFiller_regular
    (Source.ofBytes_serves Scene.padded.content) Scene.padded.decoding.decoder_follows
    Scene.padded.view_isOf rfl rfl (w := ()) rfl

end Disassembly
