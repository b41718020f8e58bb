import Disassembly.Proofs.Index.Built

/-! # Where decoding starts

The start of decoding is found in passes. The first one goes from the entry to the end of the zone,
and each one behind it over the gap that the one before has uncovered, up to where that one began. No
branch that a pass meets reaches before the start that is found in the end. The instructions that are
indexed are another sweep, though: they go straight through all the gaps, and what they are made of is
what the passes have met only as far as they fall in step with the passes.
-/

namespace Disassembly

variable {σ : Type} {source : Source σ} {dec : Decoder σ} {content : Array UInt8} {d : Decoding}

namespace Zone

/-- One pass of the search for the start of decoding: where it begins, and where it is done. -/
structure Pass where
  start : Nat
  bound : Nat
  deriving DecidableEq, Repr

def lower (z : Zone) (found : Nat) (i : Instruction) : Nat :=
  match i.branchTarget? z.arch with
  | some target => if z.start ≤ target ∧ target < found then target else found
  | none => found

def met (z : Zone) (content : Array UInt8) (d : Decoding) (p : Pass) : List Instruction :=
  (z.linear content d p.start).takeWhile (·.address < p.bound)

/-- The lowest that a pass finds; its own start if no branch reaches before that. -/
def lowest (z : Zone) (content : Array UInt8) (d : Decoding) (p : Pass) : Nat :=
  (z.met content d p).foldl z.lower p.start

def passesFrom (z : Zone) (content : Array UInt8) (d : Decoding) (p : Pass) : List Pass :=
  if z.lowest content d p < p.start then
    p :: z.passesFrom content d { start := z.lowest content d p, bound := p.start }
  else [p]
termination_by p.start

/-- The passes of the search for the start of decoding. -/
def passes (z : Zone) (content : Array UInt8) (d : Decoding) : List Pass :=
  z.passesFrom content d { start := z.entry, bound := z.stop }

/-- No call or jump among the instructions has a literal target that is in the zone and before
`offset`. -/
def ReachesNoFurther (z : Zone) (offset : Nat) (is : List Instruction) : Prop :=
  ∀ i ∈ is, ∀ target, i.branchTarget? z.arch = some target → z.start ≤ target → offset ≤ target

section Lower

variable {z : Zone}

theorem lower_le (found : Nat) (i : Instruction) : z.lower found i ≤ found := by
  unfold lower
  split
  · split <;> omega
  · exact Nat.le_refl found

theorem lower_le_target {found target : Nat} {i : Instruction}
    (hi : i.branchTarget? z.arch = some target) (htarget : z.start ≤ target) :
    z.lower found i ≤ target := by
  rw [lower, hi]
  dsimp only
  split <;> omega

theorem foldl_lower_le (found : Nat) (is : List Instruction) : is.foldl z.lower found ≤ found := by
  induction is generalizing found with
  | nil => exact Nat.le_refl found
  | cons i is ih => exact Nat.le_trans (ih (z.lower found i)) (lower_le found i)

theorem foldl_lower_reachesNoFurther (found : Nat) (is : List Instruction) :
    z.ReachesNoFurther (is.foldl z.lower found) is := by
  induction is generalizing found with
  | nil => exact nofun
  | cons i is ih =>
    intro j hj target htarget hstart
    rcases List.mem_cons.1 hj with rfl | hj
    · exact Nat.le_trans (foldl_lower_le _ is) (lower_le_target htarget hstart)
    · exact ih (z.lower found i) j hj target htarget hstart

theorem ReachesNoFurther.of_le {offset offset' : Nat} {is : List Instruction}
    (h : z.ReachesNoFurther offset is) (hle : offset' ≤ offset) : z.ReachesNoFurther offset' is :=
  fun i hi target htarget hstart => Nat.le_trans hle (h i hi target htarget hstart)

theorem foldSteps_lowerTarget (bound found : Nat) (is : List Instruction) :
    foldSteps (z.lowerTarget bound) found is =
      (is.takeWhile (·.address < bound)).foldl z.lower found := by
  induction is generalizing found with
  | nil => rfl
  | cons i is ih =>
    rw [foldSteps]
    by_cases hbound : bound ≤ i.address
    · rw [List.takeWhile_cons_of_neg (by simpa using hbound), lowerTarget, if_pos hbound]
      rfl
    · have hstep : z.lowerTarget bound i found = .yield (z.lower found i) := by
        rw [lowerTarget, if_neg hbound, lower]
        cases i.branchTarget? z.arch <;> rfl
      rw [List.takeWhile_cons_of_pos (by simpa using hbound), hstep]
      exact ih (z.lower found i)

end Lower

section Passes

variable (z : Zone) (content : Array UInt8) (d : Decoding)

theorem lowestTarget_eq_lowest {start : Nat} (bound : Nat) (hstart : z.start ≤ start) :
    (z.lowestTarget (z.code content) d.decoder start bound ()).1 =
      z.lowest content d { start, bound } := by
  have hfold := Sweep.fold_of_quiet d.decoder_follows (z.lowerTarget bound)
    { rest := (z.code content).drop (start - z.start), address := start } start () rfl
  rw [show ((z.code content).drop (start - z.start)).toList = _ from
    Code.toList_drop_extract hstart, foldSteps_lowerTarget] at hfold
  exact hfold

theorem lowest_le (p : Pass) : z.lowest content d p ≤ p.start :=
  foldl_lower_le _ _

theorem start_le_lowest {p : Pass} (hstart : z.start ≤ p.start) :
    z.start ≤ z.lowest content d p := by
  rw [← lowestTarget_eq_lowest z content d p.bound hstart]
  exact (z.lowestTarget_mem (z.code content) p.bound hstart ()).1

theorem reachBack_eq_lowest {p : Pass} (hstart : z.start ≤ p.start) :
    (z.reachBack (z.code content) d.decoder p.start p.bound ()).1 =
      if z.lowest content d p < p.start then
        (z.reachBack (z.code content) d.decoder (z.lowest content d p) p.start ()).1
      else p.start := by
  rw [reachBack_eq, lowestTarget_eq_lowest z content d p.bound hstart]
  split <;> rfl

/-- No pass finds anything that is before the place where the search ends. -/
theorem reachBack_le_lowest {p q : Pass} (hstart : z.start ≤ p.start)
    (hq : q ∈ z.passesFrom content d p) :
    (z.reachBack (z.code content) d.decoder p.start p.bound ()).1 ≤ z.lowest content d q := by
  fun_induction z.passesFrom content d p with
  | case1 p hlt ih =>
    have hnext := z.start_le_lowest content d hstart
    rw [reachBack_eq_lowest z content d hstart, if_pos hlt]
    rcases List.mem_cons.1 hq with rfl | hq
    · exact (z.reachBack_mem (z.code content) hnext ()).2
    · exact ih hnext hq
  | case2 p hge =>
    obtain rfl := List.mem_singleton.1 hq
    rw [reachBack_eq_lowest z content d hstart, if_neg hge]
    exact Nat.le_of_not_lt hge

/-- The passes leave nothing out, from the place where the search ends up to the first bound. -/
theorem exists_pass {p : Pass} {offset : Nat} (hstart : z.start ≤ p.start)
    (hle : (z.reachBack (z.code content) d.decoder p.start p.bound ()).1 ≤ offset)
    (hlt : offset < p.bound) :
    ∃ q ∈ z.passesFrom content d p, q.start ≤ offset ∧ offset < q.bound := by
  fun_induction z.passesFrom content d p with
  | case1 p hlow ih =>
    rw [reachBack_eq_lowest z content d hstart, if_pos hlow] at hle
    by_cases hgap : p.start ≤ offset
    · exact ⟨p, List.mem_cons_self, hgap, hlt⟩
    · obtain ⟨q, hq, hmem⟩ := ih (z.start_le_lowest content d hstart) hle (Nat.lt_of_not_le hgap)
      exact ⟨q, List.mem_cons_of_mem p hq, hmem⟩
  | case2 p hge =>
    rw [reachBack_eq_lowest z content d hstart, if_neg hge] at hle
    exact ⟨p, List.mem_singleton_self p, hle, hlt⟩

variable {z content d}

/-- No branch that a pass meets reaches before where decoding starts. -/
theorem met_reachesNoFurther (hz : z.fault? = none) {p : Pass} (hp : p ∈ z.passes content d) :
    z.ReachesNoFurther (z.trueStart content d) (z.met content d p) :=
  (foldl_lower_reachesNoFurther p.start (z.met content d p)).of_le
    (z.reachBack_le_lowest content d (stop_eq_of_fault? hz).2.1 hp)

theorem mem_takeWhile_of_tiles {start stop bound : Nat} {is : List Instruction}
    (h : Tiles start is stop) {i : Instruction} (hi : i ∈ is) (hlt : i.address < bound) :
    i ∈ is.takeWhile (·.address < bound) := by
  induction is generalizing start with
  | nil => cases hi
  | cons j is ih =>
    have hj : j.address < bound := by
      rcases List.mem_cons.1 hi with rfl | hi
      · exact hlt
      · have hle := h.2.le_address hi
        rw [Instruction.stop] at hle
        omega
    rw [List.takeWhile_cons_of_pos (by simpa using hj)]
    rcases List.mem_cons.1 hi with rfl | hi
    · exact List.mem_cons_self
    · exact List.mem_cons_of_mem j (ih h.2 hi)

/-- From where a pass begins a sweep through that place goes as the pass does. -/
theorem mem_met_of_step {start k l : Nat} {p : Pass} {i j : Instruction} (hd : d.Echoes)
    (hj : (z.linear content d start)[l]? = some j) (hstep : j.address = p.start)
    (hi : (z.linear content d start)[k]? = some i) (hle : l ≤ k) (hlt : i.address < p.bound) :
    i ∈ z.met content d p := by
  have hdrop := z.linear_drop content d start l
  rw [← (linear_tiles hd start).address_eq hj, hstep] at hdrop
  refine mem_takeWhile_of_tiles (linear_tiles hd p.start) ?_ hlt
  rw [← hdrop]
  refine List.mem_iff_getElem?.2 ⟨k - l, ?_⟩
  rwa [List.getElem?_drop, Nat.add_sub_cancel' hle]

/-- The instructions are in step with the passes: none of them overlaps the start of one. -/
def InStep (z : Zone) (content : Array UInt8) (d : Decoding) (is : List Instruction) : Prop :=
  ∀ p ∈ z.passes content d, ∀ i ∈ is, ¬ (i.address < p.start ∧ p.start < i.stop)

/-- Lines that are in step with the passes have been met by them, each by one. -/
theorem exists_met_of_inStep {config : Config} (hz : z.fault? = none) (hd : d.Echoes)
    (hstep : z.InStep content d (z.lines content d config)) {i : Instruction}
    (hi : i ∈ z.lines content d config) : ∃ p ∈ z.passes content d, i ∈ z.met content d p := by
  obtain ⟨-, hentry⟩ := stop_eq_of_fault? hz
  have hpre := z.lines_isPrefix content d config
  have htiles := @linear_tiles d content z hd (z.trueStart content d)
  have hlines := htiles.of_isPrefix hpre
  have hstop : reach (z.trueStart content d) (z.lines content d config) ≤ z.stop :=
    Nat.le_trans (reach_le_of_isPrefix hpre)
      (reach_linear_le (Nat.le_trans (trueStart_mem hz).2 (Nat.le_of_lt hentry.2)))
  have hpos := length_pos_of_mem_linear (hpre.subset hi)
  obtain ⟨k, hk⟩ := List.mem_iff_getElem?.1 hi
  have hlast := hlines.stop_le_reach hi
  rw [Instruction.stop] at hlast
  have hbound : i.address < z.stop := by omega
  obtain ⟨p, hp, hle, hlt⟩ := exists_pass z content d (p := { start := z.entry, bound := z.stop })
    hentry.1 (hlines.le_address hi) hbound
  -- the start of the pass is inside the lines, so that it is where one of them begins
  have hstart : z.trueStart content d ≤ p.start :=
    Nat.le_trans (z.reachBack_le_lowest content d hentry.1 hp) (z.lowest_le content d p)
  obtain ⟨l, j, hl, hj⟩ := hlines.exists_contains hstart (show p.start < _ by omega)
  simp only [Instruction.contains, Bool.and_eq_true, decide_eq_true_eq] at hj
  have hbegin : j.address = p.start := by
    have hnot := hstep p hp j (List.mem_of_getElem? hl)
    omega
  have hlk : l ≤ k := by
    refine Nat.le_of_not_lt fun hkl => ?_
    have hbehind := hlines.stop_le_address hk hl hkl
    rw [Instruction.stop] at hbehind
    omega
  exact ⟨p, hp, mem_met_of_step hd (linear_of_lines hl) hbegin
    (linear_of_lines hk) hlk hlt⟩

/-- Lines that are in step with the passes reach no further back than where decoding starts. -/
theorem lines_reachesNoFurther {config : Config} (hz : z.fault? = none) (hd : d.Echoes)
    (hstep : z.InStep content d (z.lines content d config)) :
    z.ReachesNoFurther (z.trueStart content d) (z.lines content d config) := by
  intro i hi
  obtain ⟨p, hp, hmet⟩ := exists_met_of_inStep hz hd hstep hi
  exact met_reachesNoFurther hz hp i hmet

end Passes

end Zone

namespace Index

/-- In the index that is built no branch that a pass of the search has met reaches before the start
of decoding. Neither does any indexed branch, as long as no indexed instruction overlaps the place
where a pass has begun. -/
theorem build_reaches_no_further {z : Zone} (config : Config) (hz : z.fault? = none)
    (hsize : z.stop ≤ content.size) (hsource : source.Serves content noFaults)
    (hdec : dec.Follows d noFaults) (hd : d.Echoes) (w : σ) :
    ∃ index, (build z source dec config w).1 = .ok index ∧
      (∀ p ∈ z.passes content d, z.ReachesNoFurther index.trueStart (z.met content d p)) ∧
      (z.InStep content d ((z.linear content d index.trueStart).take index.lineCount) →
        z.ReachesNoFurther index.trueStart
          ((z.linear content d index.trueStart).take index.lineCount)) := by
  refine ⟨ofZone z content d config, build_of_quiet hz hsize hd hsource hdec rfl,
    fun p hp => Zone.met_reachesNoFurther hz hp, ?_⟩
  rw [take_linear_ofZone]
  exact Zone.lines_reachesNoFurther hz hd

def jumping : Decoding :=
  .byForm fun byte =>
    if byte = 0xb8 then { length := 5, mnemonic := "mov" }
    else if byte = 0xeb then { length := 2, mnemonic := "jmp", operands := "1" }
    else if byte = 0x74 then { length := 2, mnemonic := "je", operands := "0" }
    else { length := 1, mnemonic := "nop" }

/-- Code that a jump behind the entry leads back in, to an instruction before the entry. -/
def loopingCode : Array UInt8 :=
  #[0x90, 0x90, 0x90, 0xeb, 0xfc]

def loopingZone : Zone where
  start := 0
  size := 5
  entry := 2
  arch := .x64

theorem build_looping_reaches_no_further :
    ∃ index, (build loopingZone (Source.ofBytes loopingCode) jumping.decoder {} ()).1 = .ok index ∧
      loopingZone.InStep loopingCode jumping
        ((loopingZone.linear loopingCode jumping index.trueStart).take index.lineCount) ∧
      loopingZone.ReachesNoFurther index.trueStart
        ((loopingZone.linear loopingCode jumping index.trueStart).take index.lineCount) := by
  have hd : jumping.Echoes := (Decoding.byForm_regular _).echoes
  have hsource := Source.ofBytes_serves (σ := Unit) loopingCode
  obtain ⟨index, hbuild, -, hlines⟩ := build_reaches_no_further (z := loopingZone) {} (by decide)
    (by decide) hsource jumping.decoder_follows hd ()
  obtain rfl : index = ofZone loopingZone loopingCode jumping {} :=
    Except.ok.inj (hbuild.symm.trans (build_of_quiet (by decide) (by decide) hd hsource
      jumping.decoder_follows rfl))
  have hstep : loopingZone.InStep loopingCode jumping
      ((loopingZone.linear loopingCode jumping
        (ofZone loopingZone loopingCode jumping {}).trueStart).take
          (ofZone loopingZone loopingCode jumping {}).lineCount) := by
    unfold Zone.InStep
    decide +kernel
  exact ⟨_, hbuild, hstep, hlines hstep⟩

/-- Code in which the search falls out of step. It goes back from 2 to 1 and finds no more before 2,
but what is decoded from 1 on runs over 2, and comes to a jump to 0 that no pass has met. -/
def overlappingCode : Array UInt8 :=
  #[0x90, 0xb8, 0xeb, 0xfd, 0xb8, 0x50, 0x74, 0xf8, 0x50, 0x90]

def overlappingZone : Zone where
  start := 0
  size := 10
  entry := 2
  arch := .x64

theorem build_overlapping_reaches_further :
    overlappingZone.fault? = none ∧ overlappingZone.stop ≤ overlappingCode.size ∧
      jumping.Regular ∧
      ∃ index, (build overlappingZone (Source.ofBytes overlappingCode) jumping.decoder {} ()).1 =
          .ok index ∧
        ¬ overlappingZone.ReachesNoFurther index.trueStart
          ((overlappingZone.linear overlappingCode jumping index.trueStart).take
            index.lineCount) := by
  have hd : jumping.Regular := Decoding.byForm_regular _
  refine ⟨by decide, by decide, hd, _, build_of_quiet (by decide) (by decide) hd.echoes
    (Source.ofBytes_serves overlappingCode) jumping.decoder_follows rfl, fun h => ?_⟩
  have hle := h { address := 6, bytes := [0x74, 0xf8], mnemonic := "je", operands := "0" }
    (by decide +kernel) 0 (by decide +kernel) (Nat.zero_le 0)
  exact absurd hle (by decide +kernel)

end Index
end Disassembly
