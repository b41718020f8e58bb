import Disassembly.Proofs.Index.Erratic
import Disassembly.Proofs.Words

/-! # Building an index in machine words

Offsets have 64 bits and lines have 32, a difference must not fall below zero, and the rest of a run
of bytes can be taken only from inside it. Building with all of this checked is written out here; it
has no answer where a check fails. Whatever the decoder does, no check ever fails, and what is built
is bounded by the zone.
-/

namespace Disassembly

def Code.from? (n : Nat) (c : Code) : Option Code :=
  if n ≤ c.size then some (c.drop n) else none

theorem Code.from?_eq {n : Nat} {c : Code} (h : n ≤ c.size) : c.from? n = some (c.drop n) :=
  if_pos h

variable {σ β : Type} {dec : Decoder σ}

namespace Sweep

/-- A fold with all steps checked, the one to the next address too. -/
def fold? (dec : Decoder σ) (f : Instruction → β → Option (ForInStep β)) (s : Sweep) (b : β)
    (w : σ) : Option (β × Option Error × σ) :=
  match _h : s.next dec w with
  | (none, _, w) => some (b, none, w)
  | (some (.fault e), _, w) => some (b, some e, w)
  | (some (.instruction i), s', w) =>
    match add? 64 s.address i.length, f i b with
    | some _, some (.done b) => some (b, none, w)
    | some _, some (.yield b) => fold? dec f s' b w
    | _, _ => none
termination_by s.rest.size
decreasing_by exact size_rest_lt_of_next ‹_›

theorem fold?_of_instruction {f : Instruction → β → Option (ForInStep β)} {s s' : Sweep}
    {w w' : σ} {i : Instruction} (b : β) {b' : ForInStep β}
    (h : s.next dec w = (some (.instruction i), s', w'))
    (hadd : s.address + i.length < 2 ^ 64) : f i b = some b' →
    s.fold? dec f b w = match b' with
      | .done b => some (b, none, w')
      | .yield b => s'.fold? dec f b w' := by
  intro hf
  rw [fold?]
  split
  · rename_i h'
    cases h.symm.trans h'
  · rename_i h'
    cases h.symm.trans h'
  · rename_i h'
    cases h.symm.trans h'
    rw [add?_eq hadd, hf]
    cases b' <;> rfl

/-- A fold has an answer, and the same one, if the steps have as long as `p` holds at the address
that has been reached, and keep `p`. -/
theorem fold?_eq (hdec : dec.Echoes) {f? : Instruction → β → Option (ForInStep β)}
    {f : Instruction → β → ForInStep β} {p : Nat → β → Prop} {stop : Nat} (hstop : stop < 2 ^ 64)
    (hstep : ∀ i b, p i.address b → 0 < i.length → i.stop ≤ stop →
      f? i b = some (f i b) ∧ ∀ b', f i b = .yield b' → p i.stop b')
    (s : Sweep) {b : β} (hb : p s.address b) (hs : s.address + s.rest.size ≤ stop) (w : σ) :
    s.fold? dec f? b w = some (s.fold dec f b w) := by
  -- an instruction that fits has an answer
  have hanswer : ∀ (s : Sweep) (b : β) {s' : Sweep} {w w' : σ} {i : Instruction}, p s.address b →
      s.address + s.rest.size ≤ stop → s.next dec w = (some (.instruction i), s', w') →
      s.address + i.length < 2 ^ 64 ∧ f? i b = some (f i b) ∧
        s'.address + s'.rest.size ≤ stop ∧ ∀ b', f i b = .yield b' → p s'.address b' := by
    intro s b s' w w' i hb hs h
    obtain ⟨haddr, hpos, hlen, rfl⟩ := next_instruction hdec h
    have hi : i.stop = s.address + i.length := by rw [Instruction.stop, haddr]
    obtain ⟨hf, hyield⟩ := hstep i b (haddr ▸ hb) hpos (by omega)
    simp only [advance, Code.size_drop]
    exact ⟨by omega, hf, by omega, hi ▸ hyield⟩
  fun_induction s.fold dec f b w with
  | case1 s b w s' w' h | case2 s b w e s' w' h =>
    rw [fold?]
    split <;> simp_all
  | case3 s b w i s' w' h b' hf =>
    obtain ⟨hadd, hf?, -⟩ := hanswer s b hb hs h
    rw [fold?_of_instruction b h hadd hf?, hf]
  | case4 s b w i s' w' h b' hf ih =>
    obtain ⟨hadd, hf?, hs', hb'⟩ := hanswer s b hb hs h
    rw [fold?_of_instruction b h hadd hf?, hf]
    exact ih (hb' b' hf) hs'

end Sweep

namespace Tally

variable {span limit zoneStop start : Nat}

def noteFiller? (i : Instruction) (t : Tally) : Option Tally :=
  if i.isFiller then
    (add? 32 t.fillerRun 1).map fun run =>
      { t with fillerRun := run, fillerStart := if t.fillerRun = 0 then i.address else t.fillerStart }
  else some { t with fillerRun := 0 }

def dropFiller? (t : Tally) : Option Tally := do
  let counted ← sub? t.fillerRun 1
  let lineCount ← sub? t.lineCount counted
  return { t with lineCount, codeEnd := t.fillerStart }

def countLine? (span zoneStop : Nat) (i : Instruction) (t : Tally) : Option Tally := do
  let lineCount ← add? 32 t.lineCount 1
  let stop ← add? 64 i.address i.length
  let behind ← sub? stop t.lastOffset
  let t := { t with lineCount, codeEnd := stop }
  if span ≤ behind ∧ stop < zoneStop then
    return { t with samples := { offset := stop, line := lineCount } :: t.samples, lastOffset := stop }
  else return t

def step? (span limit zoneStop : Nat) (i : Instruction) (t : Tally) : Option (ForInStep Tally) := do
  let t ← t.noteFiller? i
  if i.isFiller ∧ limit ≤ t.fillerRun then return .done (← t.dropFiller?)
  else return .yield (← t.countLine? span zoneStop i)

/-- What has been counted from `start` up to `offset` is no more than the bytes there. -/
structure FitsIn (t : Tally) (start offset : Nat) : Prop where
  lines_le : start + t.lineCount ≤ offset
  run_le : t.fillerRun ≤ t.lineCount
  last_le : t.lastOffset ≤ offset

theorem start_fitsIn (offset : Nat) : (Tally.start offset).FitsIn offset offset where
  lines_le := Nat.le_refl offset
  run_le := Nat.le_refl 0
  last_le := Nat.le_refl offset

theorem noteFiller?_eq {i : Instruction} {t : Tally} (h : t.fillerRun + 1 < 2 ^ 32) :
    t.noteFiller? i = some (t.noteFiller i) := by
  rw [noteFiller?, noteFiller, add?_eq h]
  split <;> rfl

theorem dropFiller?_eq {t : Tally} (hpos : 1 ≤ t.fillerRun) (hle : t.fillerRun - 1 ≤ t.lineCount) :
    t.dropFiller? = some t.dropFiller := by
  simp [dropFiller?, dropFiller, sub?_eq hpos, sub?_eq hle]

theorem countLine?_eq {i : Instruction} {t : Tally} (hlines : t.lineCount + 1 < 2 ^ 32)
    (hstop : i.stop < 2 ^ 64) (hlast : t.lastOffset ≤ i.stop) :
    t.countLine? span zoneStop i = some (t.countLine span zoneStop i) := by
  have hadd : add? 64 i.address i.length = some i.stop := add?_eq hstop
  simp only [countLine?, countLine, add?_eq hlines, hadd, sub?_eq hlast, Option.bind_eq_bind,
    Option.bind_some]
  by_cases hfar : span ≤ i.stop - t.lastOffset ∧ i.stop < zoneStop
  · rw [if_pos hfar, if_pos hfar]
    rfl
  · rw [if_neg hfar, if_neg hfar]
    rfl

theorem noteFiller_run_le (i : Instruction) (t : Tally) :
    (t.noteFiller i).fillerRun ≤ t.fillerRun + 1 := by
  rw [noteFiller]
  split
  · exact Nat.le_refl _
  · exact Nat.zero_le _

theorem countLine_last_le {i : Instruction} {t : Tally} (h : t.lastOffset ≤ i.stop) :
    (t.countLine span zoneStop i).lastOffset ≤ i.stop := by
  rw [countLine]
  dsimp only
  split
  · exact Nat.le_refl _
  · exact h

theorem FitsIn.countLine {t : Tally} {i : Instruction} (h : t.FitsIn start i.address)
    (hpos : 0 < i.length) :
    ((t.noteFiller i).countLine span zoneStop i).FitsIn start i.stop where
  lines_le := by
    have hlines := h.lines_le
    rw [countLine_lineCount, noteFiller_lineCount, Instruction.stop]
    omega
  run_le := by
    have hrun := h.run_le
    have hnote := noteFiller_run_le i t
    rw [countLine_lineCount, countLine_fillerRun, noteFiller_lineCount]
    omega
  last_le := by
    have hlast := h.last_le
    apply countLine_last_le
    rw [noteFiller_lastOffset, Instruction.stop]
    omega

/-- A step passes all checks as long as what has been counted fits in a zone of fewer than 2^32
bytes. -/
theorem step?_eq {t : Tally} {i : Instruction} {stop : Nat} (h : t.FitsIn start i.address)
    (hpos : 0 < i.length) (hi : i.stop ≤ stop) (hstop : stop < 2 ^ 64)
    (hsize : stop - start < 2 ^ 32) :
    step? span limit zoneStop i t = some (step span limit zoneStop i t) := by
  obtain ⟨hlines, hrun, hlast⟩ := h
  have hend : i.address + i.length ≤ stop := hi
  rw [step?, noteFiller?_eq (by omega), step]
  dsimp only [Option.bind_eq_bind, Option.bind_some]
  by_cases hfull : i.isFiller ∧ limit ≤ (t.noteFiller i).fillerRun
  · have hnote : (t.noteFiller i).fillerRun = t.fillerRun + 1 := by simp [noteFiller, hfull.1]
    rw [if_pos hfull, if_pos hfull, dropFiller?_eq (by omega)
      (by rw [noteFiller_lineCount]; omega)]
    rfl
  · rw [if_neg hfull, if_neg hfull, countLine?_eq (by rw [noteFiller_lineCount]; omega)
      (by omega) (by rw [noteFiller_lastOffset, Instruction.stop]; omega)]
    rfl

theorem FitsIn.step {t t' : Tally} {i : Instruction} (h : t.FitsIn start i.address)
    (hpos : 0 < i.length) (hstep : step span limit zoneStop i t = .yield t') :
    t'.FitsIn start i.stop := by
  rw [Tally.step] at hstep
  split at hstep
  · cases hstep
  · cases hstep
    exact h.countLine hpos

end Tally

namespace Zone

variable {z : Zone} {code : Code} {start bound : Nat}

def lowestTarget? (z : Zone) (code : Code) (dec : Decoder σ) (start bound : Nat) (w : σ) :
    Option (Nat × σ) := do
  let rest ← code.from? (← sub? start z.start)
  let (found, _, w) ← Sweep.fold? dec (fun i found => some (z.lowerTarget bound i found))
    { rest, address := start } start w
  return (found, w)

/-- `reachBack`, checked; how far it goes back is a difference too. -/
def reachBack? (z : Zone) (code : Code) (dec : Decoder σ) (start bound : Nat) (w : σ) :
    Option (Nat × σ) :=
  match z.lowestTarget? code dec start bound w with
  | none => none
  | some (found, w) =>
    if found < start then
      match sub? start found with
      | none => none
      | some _ => z.reachBack? code dec found start w
    else some (start, w)
termination_by start

def findTrueStart? (z : Zone) (code : Code) (dec : Decoder σ) (w : σ) : Option (Nat × σ) :=
  z.reachBack? code dec z.entry z.stop w

theorem lowestTarget?_eq (hdec : dec.Echoes) (hstop : z.stop < 2 ^ 64)
    (hcode : code.size = z.stop - z.start) (hstart : z.start ≤ start ∧ start ≤ z.stop) (w : σ) :
    z.lowestTarget? code dec start bound w = some (z.lowestTarget code dec start bound w) := by
  have hskip : start - z.start ≤ code.size := by omega
  have hfold := Sweep.fold?_eq hdec (f := z.lowerTarget bound) (p := fun _ _ => True) hstop
    (fun i found _ _ _ => ⟨rfl, fun _ _ => trivial⟩)
    { rest := code.drop (start - z.start), address := start } (b := start) trivial
    (by simp only [Code.size_drop]; omega) w
  simp only [lowestTarget?, sub?_eq hstart.1, Code.from?_eq hskip, hfold, Option.bind_eq_bind,
    Option.bind_some]
  rfl

theorem reachBack?_eq (hdec : dec.Echoes) (hstop : z.stop < 2 ^ 64)
    (hcode : code.size = z.stop - z.start) (hstart : z.start ≤ start ∧ start ≤ z.stop) (w : σ) :
    z.reachBack? code dec start bound w = some (z.reachBack code dec start bound w) := by
  induction start using Nat.strongRecOn generalizing bound w with
  | ind start ih =>
    have hmem : z.start ≤ (z.lowestTarget code dec start bound w).1 ∧
        (z.lowestTarget code dec start bound w).1 ≤ start :=
      z.lowestTarget_mem code bound hstart.1 w
    rw [reachBack?, lowestTarget?_eq hdec hstop hcode hstart, reachBack_eq]
    dsimp only
    split
    · rename_i hlt
      rw [sub?_eq (Nat.le_of_lt hlt)]
      exact ih _ hlt ⟨hmem.1, by omega⟩ _
    · rfl

end Zone

namespace Index

variable {z : Zone} {code : Code} {config : Config} {source : Source σ}

def count? (z : Zone) (code : Code) (dec : Decoder σ) (config : Config) (trueStart : Nat) (w : σ) :
    Option (Index × σ) := do
  let rest ← code.from? (← sub? trueStart z.start)
  let span := max config.checkpointSpan 1
  let limit := max config.fillerRunLimit 1
  let (tally, _, w) ← Sweep.fold? dec (Tally.step? span limit z.stop)
    { rest, address := trueStart } (.start trueStart) w
  return (tally.toIndex trueStart, w)

def build? (z : Zone) (source : Source σ) (dec : Decoder σ) (config : Config) (w : σ) :
    Option (Except Error Index × σ) :=
  match z.validate with
  | .error e => some (.error (e.during .indexing), w)
  | .ok () =>
    match source.read z.start z.size w with
    | (.error e, w) => some (.error (e.during .indexing), w)
    | (.ok bytes, w) => do
      let code := Code.ofArray bytes
      let (trueStart, w) ← z.findTrueStart? code dec w
      let (index, w) ← count? z code dec config trueStart w
      return (.ok index, w)

theorem count?_eq (hdec : dec.Echoes) (hstop : z.stop < 2 ^ 64) (hsize : z.stop - z.start < 2 ^ 32)
    (hcode : code.size = z.stop - z.start) {start : Nat}
    (hstart : z.start ≤ start ∧ start ≤ z.stop) (w : σ) :
    count? z code dec config start w = some (count z code dec config start w) := by
  have hskip : start - z.start ≤ code.size := by omega
  have hfold := Sweep.fold?_eq hdec
    (f := Tally.step (max config.checkpointSpan 1) (max config.fillerRunLimit 1) z.stop)
    (p := fun offset t => Tally.FitsIn t start offset) hstop
    (fun i t ht hpos hi => ⟨Tally.step?_eq ht hpos hi hstop (by omega), fun _ => ht.step hpos⟩)
    { rest := code.drop (start - z.start), address := start } (b := Tally.start start)
    (Tally.start_fitsIn start) (by simp only [Code.size_drop]; omega) w
  simp only [count?, sub?_eq hstart.1, Code.from?_eq hskip, hfold, Option.bind_eq_bind,
    Option.bind_some]
  rfl

/-- Once the bytes of a sound zone have been read, all steps have an answer, and what is built is
bounded by the zone. -/
theorem isBounded_of_read (config : Config) (hz : z.fault? = none) (hsize : z.size < 2 ^ 32)
    (hdec : dec.Echoes) {w w₁ : σ} {bytes : Array UInt8} (hbytes : bytes.size = z.size)
    (hread : source.read z.start z.size w = (.ok bytes, w₁)) :
    build? z source dec config w = some (build z source dec config w) ∧
      ∃ index, (build z source dec config w).1 = .ok index ∧ index.IsBounded z config := by
  obtain ⟨hstop, hentry⟩ := Zone.stop_eq_of_fault? hz
  have hword : z.stop < 2 ^ 64 := Nat.lt_of_le_of_lt (Nat.min_le_right _ _) (by decide)
  have hcode : (Code.ofArray bytes).size = z.stop - z.start := by
    rw [← Code.length_toList, Code.toList_ofArray, Array.length_toList, hbytes]
    omega
  have hfind : z.findTrueStart? (.ofArray bytes) dec w₁ =
      some (z.findTrueStart (.ofArray bytes) dec w₁) :=
    Zone.reachBack?_eq hdec hword hcode ⟨hentry.1, Nat.le_of_lt hentry.2⟩ w₁
  have hmem : z.start ≤ (z.findTrueStart (.ofArray bytes) dec w₁).1 ∧
      (z.findTrueStart (.ofArray bytes) dec w₁).1 ≤ z.entry :=
    z.reachBack_mem _ hentry.1 w₁
  cases htrue : z.findTrueStart (.ofArray bytes) dec w₁ with
  | mk start w₂ =>
    rw [htrue] at hfind hmem
    have hstart : z.start ≤ start ∧ start ≤ z.stop := ⟨hmem.1, by omega⟩
    have hcount := @count?_eq _ dec z _ config hdec hword (by omega) hcode start hstart w₂
    obtain ⟨lines, hlines, htiles, hpos, hreach⟩ :=
      @exists_count_eq_ofLines _ dec z _ config start hdec hcode hstart w₂
    -- both builds go on from the same start and the same world
    rw [build_of_read hz hread, htrue]
    constructor
    · rw [build?, Zone.validate, hz]
      dsimp only
      rw [hread]
      simp only [hfind, hcount, Option.bind_eq_bind, Option.bind_some]
      rfl
    · exact ⟨_, congrArg Except.ok hlines, ofLines_isBounded hmem htiles hpos hreach⟩

/-- Whatever the decoder does, as long as its instructions are where they were asked for, building
comes to an end with every step within its word and every slice within the bytes. If an index is
built, the zone bounds it. -/
theorem build_isBounded (config : Config) (hsize : z.size < 2 ^ 32)
    (hsource : source.ReadsExactly) (hdec : dec.Echoes) (w : σ) :
    build? z source dec config w = some (build z source dec config w) ∧
      ∀ index, (build z source dec config w).1 = .ok index → index.IsBounded z config := by
  cases hz : z.fault? with
  | some fault =>
    rw [build?, build, Zone.validate, hz]
    exact ⟨rfl, fun index h => by cases h⟩
  | none =>
    cases hread : source.read z.start z.size w with
    | mk r w₁ =>
      rcases r with e | bytes
      · rw [build_of_read_error hz hread, build?, Zone.validate, hz]
        dsimp only
        rw [hread]
        exact ⟨rfl, fun index h => by cases h⟩
      · obtain ⟨hwords, index, hindex, hbounded⟩ :=
          isBounded_of_read config hz hsize hdec (hsource hread) hread
        refine ⟨hwords, fun index' h => ?_⟩
        rw [hindex] at h
        exact Except.ok.inj h ▸ hbounded

/-- A decoder that gives one answer after another off a list, whatever the bytes are. -/
def scripted : Decoder (List (Option Decoding.Form)) where
  decode _ address
    | [] => (.error { failure := .decode address .malformed }, [])
    | none :: script => (.ok none, script)
    | some form :: script =>
      (.ok (some {
        address
        bytes := List.replicate form.length 0
        mnemonic := form.mnemonic
        operands := form.operands }), script)

def scriptedZone : Zone where
  start := 2
  size := 8
  entry := 6
  arch := .x64

/-- The jump back to 3 is met only by the first pass, which then runs out of bytes. The second pass
ends with an instruction that is too long. The sweep from 3 on comes to four bytes of instructions
and, after them, to filler. -/
def erraticScript : List (Option Decoding.Form) :=
  [some { length := 2, mnemonic := "jmp", operands := "3" }, none,
    some { length := 9, mnemonic := "nop" },
    some { length := 2, mnemonic := "nop" },
    some { length := 1, mnemonic := "add", operands := "byte ptr [rax], al" },
    some { length := 1, mnemonic := "nop" },
    some { length := 1, mnemonic := "add", operands := "byte ptr [rax], al" },
    some { length := 1, mnemonic := "add", operands := "byte ptr [rax], al" }]

theorem build_scripted_isBounded :
    ∃ index, build? scriptedZone (Source.ofBytes (Array.replicate 10 0)) scripted
        { checkpointSpan := 0, fillerRunLimit := 2 } erraticScript = some (.ok index, []) ∧
      index.checkpoints.map (·.offset) = [3, 5, 6] ∧ index.codeEnd = 7 ∧
      index.IsBounded scriptedZone { checkpointSpan := 0, fillerRunLimit := 2 } := by
  have hdec : scripted.Echoes := by
    intro code address w w' i h
    rcases w with _ | ⟨_ | form, w⟩ <;> cases h
    rfl
  obtain ⟨hwords, hbounded⟩ := build_isBounded (z := scriptedZone)
    { checkpointSpan := 0, fillerRunLimit := 2 } (by decide)
    (Source.ofBytes_readsExactly (Array.replicate 10 0)) hdec erraticScript
  have hindex : (build scriptedZone (Source.ofBytes (Array.replicate 10 0)) scripted
      { checkpointSpan := 0, fillerRunLimit := 2 } erraticScript).1.toOption = some {
        trueStart := 3
        samples := [{ offset := 5, line := 1 }, { offset := 6, line := 2 }]
        lineCount := 3
        codeEnd := 7 } := by
    decide +kernel
  have hscript : (build scriptedZone (Source.ofBytes (Array.replicate 10 0)) scripted
      { checkpointSpan := 0, fillerRunLimit := 2 } erraticScript).2.isEmpty = true := by
    decide +kernel
  cases hbuild : build scriptedZone (Source.ofBytes (Array.replicate 10 0)) scripted
      { checkpointSpan := 0, fillerRunLimit := 2 } erraticScript with
  | mk r script =>
    rw [hbuild] at hindex hscript hwords hbounded
    rcases r with e | index
    · cases hindex
    · cases hindex
      obtain rfl : script = [] := List.isEmpty_iff.1 hscript
      exact ⟨_, hwords, rfl, rfl, hbounded _ rfl⟩

end Index
end Disassembly
