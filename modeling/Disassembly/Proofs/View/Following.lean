import Mathlib
import Disassembly.Proofs.Levels.Settling
import Disassembly.Proofs.View.History
import Disassembly.Proofs.View.Labelling

/-! # Following a branch

Where a branch leads is found out in three ways: when the branch is followed, when it is rendered,
and when the line of its target is looked for. They agree: all of them come to the line whose record
is the instruction that has the target among its bytes. None of them leaves a trace in the view,
whatever fails on the way.
-/

namespace Disassembly

variable {σ : Type}

namespace Scene

variable {c : Scene}

def branchTarget? (c : Scene) (scanned : Bool) (number : Nat) : Option Nat :=
  (c.instructionOn? scanned number).bind (·.branchTarget? c.zone.arch)

theorem exists_targetLine (hd : c.decoding.Echoes) (scanned : Bool) {value : Nat}
    (hcovers : c.index.covers value = true) :
    ∃ n i, c.targetLine scanned value = some n ∧ n < (c.levels scanned).size ∧
      c.instructionOn? scanned n = some i ∧ i.contains value = true := by
  obtain ⟨real, i, hi, hcontains⟩ := (Zone.covers_iff hd).1 hcovers
  obtain ⟨flat, hmodels⟩ := c.levels_models scanned
  obtain ⟨hlt, hentry⟩ := hmodels.lineOfReal_entry (Zone.lt_lineCount hi)
  refine ⟨_, i, ?_, hlt, ?_, hcontains⟩
  · rw [targetLine, lineAt?, (Zone.seekOffset_eq_some_iff hd).2 ⟨real, i, hi, hcontains, rfl⟩]
    rfl
  · rw [instructionOn?, entry, hentry]
    exact hi

theorem targetLine_eq_none (hd : c.decoding.Echoes) (scanned : Bool) {value : Nat}
    (hcovers : c.index.covers value = false) : c.targetLine scanned value = none := by
  rw [targetLine, c.lineAt?_eq_none hd hcovers]
  rfl

theorem isSome_targetLine_iff (hd : c.decoding.Echoes) (scanned : Bool) (value : Nat) :
    (c.targetLine scanned value).isSome = true ↔ c.index.covers value = true := by
  cases hcovers : c.index.covers value with
  | true =>
    obtain ⟨n, i, htarget, -⟩ := exists_targetLine hd scanned hcovers
    simp [htarget]
  | false => simp [targetLine_eq_none hd scanned hcovers]

theorem instructionLine_of_branch {i : Instruction} {value : Nat}
    (h : i.branchTarget? c.zone.arch = some value) (scanned : Bool) (number : Nat) :
    c.instructionLine scanned number i =
      c.branchLine scanned value (.ofInstruction number i) := by
  have hflow : (Line.ofInstruction number i).flow = i.flow := rfl
  rw [Instruction.branchTarget?] at h
  rw [instructionLine, hflow]
  cases hf : i.flow with
  | plain | push =>
    rw [hf] at h
    cases h
  | call | jump =>
    rw [hf, Flow.isBranch, if_pos rfl] at h
    rw [h]

theorem instructionLine_of_no_branch {i : Instruction} (h : i.branchTarget? c.zone.arch = none)
    (scanned : Bool) (number : Nat) :
    ∃ value, c.instructionLine scanned number i = { Line.ofInstruction number i with value } := by
  have hflow : (Line.ofInstruction number i).flow = i.flow := rfl
  rw [Instruction.branchTarget?] at h
  rw [instructionLine, hflow]
  cases hf : i.flow with
  | plain => exact ⟨none, rfl⟩
  | push =>
    cases i.literal? c.zone.arch with
    | none => exact ⟨none, rfl⟩
    | some value => exact ⟨some value, by simp only [Line.ofInstruction, hf]⟩
  | call | jump =>
    rw [hf, Flow.isBranch, if_pos rfl] at h
    rw [h]
    exact ⟨none, rfl⟩

/-- A branch is where its instruction is, and has its target; what that leads to is shown only if it
has no name of its own. -/
theorem branchLine_of_instruction (scanned : Bool) (value number : Nat) (i : Instruction) :
    (c.branchLine scanned value (.ofInstruction number i)).address = i.address ∧
      (c.branchLine scanned value (.ofInstruction number i)).bytes = i.bytes ∧
      (c.branchLine scanned value (.ofInstruction number i)).flow = i.flow ∧
      (c.branchLine scanned value (.ofInstruction number i)).value = some value ∧
      (c.branchLine scanned value (.ofInstruction number i)).targetLine =
        if (c.env.symbolFor? value).isSome then none else c.targetLine scanned value := by
  rw [branchLine]
  cases c.env.symbolFor? value <;> exact ⟨rfl, rfl, rfl, rfl, rfl⟩

theorem instructionLine_place (scanned : Bool) (number : Nat) (i : Instruction) :
    (c.instructionLine scanned number i).address = i.address ∧
      (c.instructionLine scanned number i).bytes = i.bytes := by
  cases h : i.branchTarget? c.zone.arch with
  | none =>
    obtain ⟨value, hline⟩ := c.instructionLine_of_no_branch h scanned number
    rw [hline]
    exact ⟨rfl, rfl⟩
  | some value =>
    obtain ⟨haddress, hbytes, -⟩ := c.branchLine_of_instruction scanned value number i
    rw [c.instructionLine_of_branch h]
    exact ⟨haddress, hbytes⟩

theorem record_of_instructionOn? {scanned : Bool} {number : Nat} {i : Instruction}
    (hi : c.instructionOn? scanned number = some i) :
    c.record scanned number = c.instructionLine scanned number i := by
  rw [instructionOn?] at hi
  rw [record]
  cases hentry : c.entry scanned number with
  | label label =>
    rw [hentry] at hi
    cases hi
  | instruction real =>
    rw [hentry] at hi
    dsimp only at hi ⊢
    rw [hi]

theorem record_targetLine_of_no_branch {scanned : Bool} {number : Nat}
    (h : c.branchTarget? scanned number = none) : (c.record scanned number).targetLine = none := by
  cases hi : c.instructionOn? scanned number with
  | some i =>
    rw [branchTarget?, hi, Option.bind_some] at h
    obtain ⟨value, hline⟩ := c.instructionLine_of_no_branch h scanned number
    rw [record_of_instructionOn? hi, hline]
    rfl
  | none =>
    rw [instructionOn?] at hi
    rw [record]
    cases hentry : c.entry scanned number with
    | label label => rfl
    | instruction real =>
      rw [hentry] at hi
      dsimp only at hi ⊢
      rw [hi]
      rfl

end Scene

namespace OpenZone

variable {o : OpenZone σ} {c : Scene} {shown : List Nat} {source : Source σ}

/-- Following a branch gives the line of its target, if that is covered. -/
theorem targetOf_eq (hd : c.decoding.Regular) (hsource : source.Serves c.content noFaults)
    (ho : o.Agrees c shown) {real : Nat} {i : Instruction} (hi : c.instructions[real]? = some i)
    (w : σ) :
    (o.targetOf c.zone.arch source real w).1 =
      .ok ((i.branchTarget? c.zone.arch).bind (c.targetLine o.scanned)) := by
  obtain ⟨k, w₁, hline, hk⟩ :=
    Scene.byLine_of_instructions hd ho.lies hsource ho.decoder ho.seeker hi w
  rw [targetOf, ho.index_eq, hline]
  dsimp only
  rw [show (Index.seekOn _ real i).instruction = i from rfl]
  cases i.branchTarget? c.zone.arch with
  | none => rfl
  | some target =>
    dsimp only
    cases hcovers : c.index.covers target with
    | false =>
      rw [Option.bind_some, Scene.targetLine_eq_none hd.echoes o.scanned hcovers]
      rfl
    | true =>
      obtain ⟨line, hat, -⟩ := c.exists_lineAt?_of_covers hd.echoes hcovers
      obtain ⟨seek, k', w', hoffset, hseek, -⟩ :=
        Scene.byOffset_of_lineAt? hd ho.lies hsource ho.decoder hk hat w₁
      rw [if_pos rfl, hoffset, Option.bind_some, Scene.targetLine, hat, Option.map_some]
      dsimp only
      rw [hseek, Levels.lineOfReal_congr ho.root_eq]

end OpenZone

namespace View

variable {v : View σ} {c : Scene} {shown : List Nat}

theorem follow_eq (hd : c.decoding.Regular) (h : v.Agrees c shown) {number : Nat}
    (hnumber : number < v.lineCount) (w : σ) :
    (v.follow number w).1 =
      .ok ((c.branchTarget? v.isScanned number).bind (c.targetLine v.isScanned)) := by
  obtain ⟨o, hready, ho⟩ := h.opened
  rw [lineCount_of_ready hready] at hnumber
  have hsize : o.levels.size = (c.levels o.scanned).size := congrArg Level.stop ho.root_eq
  have hpeek : o.levels.peek number = .ok (c.entry o.scanned number) := by
    rw [ho.levels.peek hnumber, ho.root_eq, Scene.entry]
  rw [follow, ensureOpen_of_ready hready, isScanned_of_ready hready, Scene.branchTarget?]
  dsimp only
  rw [hpeek]
  rcases c.entry_cases (hsize ▸ hnumber) with
    ⟨label, hlabel, -, hnone⟩ | ⟨real, i, hreal, hi, -, hon⟩
  · rw [hlabel, hnone]
    rfl
  · rw [hreal, hon, h.isOf.zone_eq]
    exact OpenZone.targetOf_eq hd h.isOf.source ho hi w

theorem lineOfOffset_eq (hd : c.decoding.Regular) (h : v.Agrees c shown) (offset : Nat) (w : σ) :
    (v.lineOfOffset offset w).1.toOption = c.targetLine v.isScanned offset := by
  obtain ⟨o, hready, ho⟩ := h.opened
  rw [lineOfOffset, ensureOpen_of_ready hready, isScanned_of_ready hready]
  dsimp only
  cases hseek : o.seeker.byOffset v.source o.decoder o.index offset w with
  | mk r rest =>
    obtain ⟨k, w'⟩ := rest
    dsimp only
    rw [ho.index_eq] at hseek
    have hanswers :=
      (Seeker.byOffset_answers hd ho.lies h.isOf.source ho.decoder ho.seeker hseek).2
    rw [Scene.targetLine, Scene.lineAt?]
    cases r with
    | ok seek =>
      rw [hanswers.want_eq rfl, Option.map_some, Option.map_some,
        ← Levels.lineOfReal_congr ho.root_eq]
      rfl
    | error e =>
      cases hwant : c.zone.seekOffset c.content c.decoding c.config offset with
      | none => rfl
      | some seek => cases hanswers.eq_ok rfl hwant

/-- In every window that has the line, its record is `l`, rails aside. -/
def RendersAs (v : View σ) (w : σ) (number : Nat) (l : Line) : Prop :=
  ∀ start count, start ≤ number → number < start + count →
    ∃ lines, (v.render start count w).1 = .ok lines ∧
      (lines.map Line.withoutRails)[number - start]? = some l

theorem lineCount_eq (h : v.Agrees c shown) : v.lineCount = (c.levels v.isScanned).size := by
  obtain ⟨o, hready, ho⟩ := h.opened
  rw [lineCount_of_ready hready, isScanned_of_ready hready]
  exact congrArg Level.stop ho.root_eq

theorem rendersAs_record (hd : c.decoding.Regular) (h : v.Agrees c shown) {number : Nat}
    (hnumber : number < v.lineCount) (w : σ) :
    v.RendersAs w number (c.record v.isScanned number) := by
  intro start count hle hlt
  obtain ⟨v', w', hrender, -⟩ := render_eq hd h start count w
  have hsize := lineCount_eq h
  have hget : (List.range' start (min (start + count) (c.levels v.isScanned).size - start))[
      number - start]? = some number := by
    rw [List.getElem?_range' (by omega)]
    congr 1
    omega
  refine ⟨_, congrArg (·.1) hrender, ?_⟩
  rw [c.window_withoutRails, List.getElem?_map, hget]
  rfl

/-- A branch of the scene that leads into the code comes to line `n`, however that is found out. -/
structure Lands (v : View σ) (w : σ) (number target n : Nat) : Prop where
  follow_eq : (v.follow number w).1 = .ok (some n)
  lineOfOffset_eq : (v.lineOfOffset target w).1 = .ok n
  spans : ∃ there, v.RendersAs w n there ∧ there.kind = .instruction ∧
    there.address ≤ target ∧ target < there.address + there.bytes.length
  shows : ∃ here, v.RendersAs w number here ∧ here.flow.isBranch = true ∧
    here.value = some target ∧ (v.env.symbolFor? target = none → here.targetLine = some n)

/-- The line is not one to follow, and is not shown to be one. -/
structure LeadsNowhere (v : View σ) (w : σ) (number : Nat) : Prop where
  follow_eq : (v.follow number w).1 = .ok none
  shows : ∃ here, v.RendersAs w number here ∧ here.targetLine = none

/-- Following lines, rendering them, and looking for the lines of offsets agree. -/
structure FollowsRendered (v : View σ) (w : σ) (c : Scene) : Prop where
  index_eq : v.index? = some c.index
  lands : ∀ {number target : Nat}, number < v.lineCount →
    c.branchTarget? v.isScanned number = some target → c.index.covers target = true →
      ∃ n, v.Lands w number target n
  leads_nowhere : ∀ {number : Nat}, number < v.lineCount →
    (∀ target, c.branchTarget? v.isScanned number = some target →
      c.index.covers target = false) → v.LeadsNowhere w number
  lineOfOffset_ok_iff : ∀ offset,
    (∃ n, (v.lineOfOffset offset w).1 = .ok n) ↔ c.index.covers offset = true

section Agrees

variable (hd : c.decoding.Regular) (h : v.Agrees c shown) (w : σ)

include hd h

theorem lineOfOffset_eq_ok_iff (offset n : Nat) :
    (v.lineOfOffset offset w).1 = .ok n ↔ c.targetLine v.isScanned offset = some n := by
  rw [← lineOfOffset_eq hd h offset w]
  cases (v.lineOfOffset offset w).1 <;> simp [Except.toOption]

theorem exists_lands {number target : Nat} (hnumber : number < v.lineCount)
    (hbranch : c.branchTarget? v.isScanned number = some target)
    (hcovers : c.index.covers target = true) : ∃ n, v.Lands w number target n := by
  obtain ⟨n, j, htarget, hn, hj, hcontains⟩ :=
    Scene.exists_targetLine hd.echoes v.isScanned hcovers
  rw [← lineCount_eq h] at hn
  refine ⟨n, ?_, ?_, ?_, ?_⟩
  · rw [follow_eq hd h hnumber, hbranch, Option.bind_some, htarget]
  · exact (lineOfOffset_eq_ok_iff hd h w target n).2 htarget
  · have hrecord := c.instructionLine_place v.isScanned n j
    simp only [Instruction.contains, Bool.and_eq_true, decide_eq_true_eq] at hcontains
    refine ⟨_, rendersAs_record hd h hn w, ?_⟩
    rw [Scene.record_of_instructionOn? hj, hrecord.1, hrecord.2]
    exact ⟨(c.instructionLine_kind v.isScanned n j).2, hcontains⟩
  · obtain ⟨i, hi, htaken⟩ := Option.bind_eq_some_iff.1 hbranch
    obtain ⟨-, -, hflow, hvalue, hshown⟩ :=
      c.branchLine_of_instruction v.isScanned target number i
    refine ⟨_, rendersAs_record hd h hnumber w, ?_⟩
    rw [Scene.record_of_instructionOn? hi, c.instructionLine_of_branch htaken, hflow, hvalue,
      hshown, htarget, h.isOf.env_eq]
    refine ⟨?_, rfl, fun hsymbol => by rw [hsymbol]; rfl⟩
    rw [Instruction.branchTarget?] at htaken
    split at htaken
    · assumption
    · cases htaken

theorem leadsNowhere_of_not_covered {number : Nat} (hnumber : number < v.lineCount)
    (hnone : ∀ target, c.branchTarget? v.isScanned number = some target →
      c.index.covers target = false) : v.LeadsNowhere w number := by
  refine ⟨?_, _, rendersAs_record hd h hnumber w, ?_⟩
  · rw [follow_eq hd h hnumber]
    cases hbranch : c.branchTarget? v.isScanned number with
    | none => rfl
    | some target =>
      rw [Option.bind_some, Scene.targetLine_eq_none hd.echoes _ (hnone target hbranch)]
  · cases hbranch : c.branchTarget? v.isScanned number with
    | none => exact Scene.record_targetLine_of_no_branch hbranch
    | some target =>
      obtain ⟨i, hi, htaken⟩ := Option.bind_eq_some_iff.1 hbranch
      obtain ⟨-, -, -, -, hshown⟩ := c.branchLine_of_instruction v.isScanned target number i
      rw [Scene.record_of_instructionOn? hi, c.instructionLine_of_branch htaken, hshown,
        Scene.targetLine_eq_none hd.echoes _ (hnone target hbranch), ite_self]

theorem followsRendered_of_agrees : v.FollowsRendered w c where
  index_eq := by
    obtain ⟨o, hready, ho⟩ := h.opened
    rw [index?, open?, hready, ← ho.index_eq]
    rfl
  lands hnumber hbranch hcovers := exists_lands hd h w hnumber hbranch hcovers
  leads_nowhere hnumber hnone := leadsNowhere_of_not_covered hd h w hnumber hnone
  lineOfOffset_ok_iff offset := by
    rw [← Scene.isSome_targetLine_iff hd.echoes v.isScanned offset, Option.isSome_iff_exists]
    exact exists_congr fun n => lineOfOffset_eq_ok_iff hd h w offset n

end Agrees

namespace Tour

/-- After any requests, a view that opened follows branches to where they are shown to lead; and
following a branch or looking for the line of an offset changes nothing in any view, whatever its
source and its decoder do. -/
theorem run_followsRendered {v : View σ} {w : σ} (hv : v.IsOf c) (hd : c.decoding.Regular)
    (hnew : v.status = .untouched) {n : Nat} (hopen : (v.initialise w).1 = .ok n)
    (requests : List Request) :
    (∀ w', ((Tour.start v w).run requests).view.FollowsRendered w' c) ∧
      ∀ (τ : Type) (u : View τ) (o : OpenZone τ), u.status = .ready o → ∀ (w' : τ) (line offset),
        (u.follow line w').2.1 = u ∧ (u.lineOfOffset offset w').2.1 = u := by
  obtain ⟨-, hagrees⟩ := initialise_agrees hv hd hnew hopen
  obtain ⟨-, hrun⟩ := @run_agrees σ (Tour.start v w) c hd hagrees requests
  constructor
  · intro w'
    exact followsRendered_of_agrees hd hrun w'
  · intro τ u o hready w' line offset
    rw [follow_view, lineOfOffset_view, ensureOpen_of_ready hready]
    exact ⟨rfl, rfl⟩

def calling : Scene where
  zone := Levels.callingZone
  content := Levels.callingCode
  decoding := Levels.calling

/-- The call behind the label of the entry point leads into the jump on line 3, whose label is on
line 2. Of two views in which a read fails, one is asked to follow the call, and the other one for the
line of an offset. -/
theorem run_followsRendered_calling :
    (((Tour.start calling.view ()).run [.render 0 2, .deepScan, .follow 0]).view.FollowsRendered ()
        calling ∧
      (∃ n, ((Tour.start calling.view ()).run [.render 0 2, .deepScan, .follow 0]).view.Lands ()
        1 6 n) ∧
      ((Tour.start calling.view ()).run [.render 0 2, .deepScan, .follow 0]).view.LeadsNowhere ()
        2) ∧
      ∃ o, (Tour.start calling.interruptedView { plan := [] }).view.status = .ready o ∧
        ((Tour.start calling.interruptedView { plan := [] }).view.follow 1 { plan := [true] }).2.1 =
          (Tour.start calling.interruptedView { plan := [] }).view ∧
        ((Tour.start calling.interruptedView { plan := [] }).view.lineOfOffset 6
          { plan := [true] }).2.1 =
          (Tour.start calling.interruptedView { plan := [] }).view := by
  have hd : calling.decoding.Regular := Decoding.byForm_regular _
  obtain ⟨n, hopen⟩ := calling.exists_initialise_view hd ⟨by decide, by decide⟩
  obtain ⟨hfollows, hrestores⟩ := run_followsRendered calling.view_isOf hd rfl hopen
    [.render 0 2, .deepScan, .follow 0]
  constructor
  · have hcount : ((Tour.start calling.view ()).run
        [.render 0 2, .deepScan, .follow 0]).view.lineCount = 5 := by
      cbv
    refine ⟨hfollows (), ?_, ?_⟩
    · exact (hfollows ()).lands (by rw [hcount]; decide) (by cbv) (by decide +kernel)
    · apply (hfollows ()).leads_nowhere (by rw [hcount]; decide)
      have hlabel : calling.branchTarget? ((Tour.start calling.view ()).run
          [.render 0 2, .deepScan, .follow 0]).view.isScanned 2 = none := by
        cbv
      rw [hlabel]
      intro target htarget
      cases htarget
  · have hready : (Tour.start calling.interruptedView { plan := [] }).view.open?.isSome = true := by
      cbv
    obtain ⟨o, ho⟩ := exists_ready_of_isSome hready
    exact ⟨o, ho, hrestores _ _ o ho { plan := [true] } 1 6⟩

end Tour
end View
end Disassembly
