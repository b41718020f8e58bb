import Disassembly.Proofs.Index.Discovery
import Disassembly.Proofs.Index.Words
import Mathlib.Data.List.Chain

/-! # The passes of the search

The search for the start of decoding makes one pass after another, and a decoder may answer each of
them as it likes. The search comes to an end nevertheless, since each pass begins before the one in
front of it and none begins before the zone; and what it ends with is the entry, or a place that one of
its passes has seen a branch lead to. Over a fixed decoding no branch that the first pass or the last
one meets reaches further.
-/

namespace Disassembly

variable {σ β : Type} {dec : Decoder σ}

namespace Sweep

/-- A fold goes over these instructions, and comes to a result and a world. It is over when the sweep
is, or after a fault, or when a step is done. -/
inductive GoesOver (dec : Decoder σ) (f : Instruction → β → ForInStep β) :
    Sweep → β → σ → List Instruction → β → σ → Prop
  | ended {s s' : Sweep} {w w' : σ} (b : β) (next : s.next dec w = (none, s', w')) :
      GoesOver dec f s b w [] b w'
  | fault {s s' : Sweep} {w w' : σ} {e : Error} (b : β)
      (next : s.next dec w = (some (.fault e), s', w')) : GoesOver dec f s b w [] b w'
  | done {s s' : Sweep} {w w' : σ} {i : Instruction} {b b' : β}
      (next : s.next dec w = (some (.instruction i), s', w')) (step : f i b = .done b') :
      GoesOver dec f s b w [i] b' w'
  | yield {s s' : Sweep} {w w' w'' : σ} {i : Instruction} {is : List Instruction} {b b' r : β}
      (next : s.next dec w = (some (.instruction i), s', w')) (step : f i b = .yield b')
      (rest : GoesOver dec f s' b' w' is r w'') : GoesOver dec f s b w (i :: is) r w''

theorem exists_goesOver (dec : Decoder σ) (f : Instruction → β → ForInStep β) (s : Sweep) (b : β)
    (w : σ) : ∃ is, GoesOver dec f s b w is (s.fold dec f b w).1 (s.fold dec f b w).2.2 := by
  fun_induction s.fold dec f b w with
  | case1 s b w s' w' h => exact ⟨[], .ended b h⟩
  | case2 s b w e s' w' h => exact ⟨[], .fault b h⟩
  | case3 s b w i s' w' h b' hf => exact ⟨[i], .done h hf⟩
  | case4 s b w i s' w' h b' hf ih =>
    obtain ⟨is, hover⟩ := ih
    exact ⟨i :: is, .yield h hf hover⟩

namespace GoesOver

variable {f : Instruction → β → ForInStep β} {s : Sweep} {b r : β} {w w' : σ}
  {is : List Instruction}

theorem length_le (h : GoesOver dec f s b w is r w') : is.length ≤ s.rest.size := by
  induction h with
  | ended | fault => exact Nat.zero_le _
  | done next step => exact Nat.lt_of_le_of_lt (Nat.zero_le _) (size_rest_lt_of_next next)
  | yield next step rest ih => exact Nat.lt_of_le_of_lt ih (size_rest_lt_of_next next)

theorem eq_foldSteps (h : GoesOver dec f s b w is r w') : r = foldSteps f b is := by
  induction h with
  | ended | fault => rfl
  | done next step => rw [foldSteps, step]
  | yield next step rest ih => rw [foldSteps, step, ih]

theorem eq_fold (h : GoesOver dec f s b w is r w') :
    r = (s.fold dec f b w).1 ∧ w' = (s.fold dec f b w).2.2 := by
  induction h with
  | ended b next | fault b next | done next step | yield next step rest ih =>
    rw [fold]
    split <;> simp_all

end GoesOver

end Sweep

namespace Zone

structure Leg extends Pass where
  decoded : List Instruction

def sweepFrom (z : Zone) (code : Code) (start : Nat) : Sweep :=
  { rest := code.drop (start - z.start), address := start }

/-- A search that begins with the pass `p` makes these passes, and comes to a start and a world. As
long as a pass finds a branch that reaches further back, the next one goes from there up to where
that pass began. -/
inductive Search (z : Zone) (code : Code) (dec : Decoder σ) :
    Pass → σ → List Leg → Nat → σ → Prop
  | settled {p : Pass} {w w' : σ} {is : List Instruction} {found : Nat}
      (pass : Sweep.GoesOver dec (z.lowerTarget p.bound) (z.sweepFrom code p.start) p.start w is
        found w')
      (le : p.start ≤ found) : Search z code dec p w [{ toPass := p, decoded := is }] p.start w'
  | lowered {p : Pass} {w w' w'' : σ} {is : List Instruction} {found t : Nat} {legs : List Leg}
      (pass : Sweep.GoesOver dec (z.lowerTarget p.bound) (z.sweepFrom code p.start) p.start w is
        found w')
      (lt : found < p.start)
      (rest : Search z code dec { start := found, bound := p.start } w' legs t w'') :
      Search z code dec p w ({ toPass := p, decoded := is } :: legs) t w''

variable {z : Zone} {code : Code}

theorem exists_search (z : Zone) (code : Code) (dec : Decoder σ) (p : Pass) (w : σ) :
    ∃ legs, z.Search code dec p w legs (z.reachBack code dec p.start p.bound w).1
      (z.reachBack code dec p.start p.bound w).2 := by
  generalize hstart : p.start = start
  induction start using Nat.strongRecOn generalizing p w with
  | ind start ih =>
    subst hstart
    obtain ⟨is, hpass⟩ :=
      Sweep.exists_goesOver dec (z.lowerTarget p.bound) (z.sweepFrom code p.start) p.start w
    change Sweep.GoesOver _ _ _ _ _ _ (z.lowestTarget code dec p.start p.bound w).1
      (z.lowestTarget code dec p.start p.bound w).2 at hpass
    rw [reachBack_eq]
    split
    · rename_i hlt
      obtain ⟨legs, hrest⟩ := ih _ hlt
        { start := (z.lowestTarget code dec p.start p.bound w).1, bound := p.start } _ rfl
      exact ⟨_, .lowered hpass hlt hrest⟩
    · rename_i hle
      exact ⟨_, .settled hpass (Nat.le_of_not_lt hle)⟩

theorem lower_cases (z : Zone) (found : Nat) (i : Instruction) :
    z.lower found i = found ∨
      z.start ≤ z.lower found i ∧ i.branchTarget? z.arch = some (z.lower found i) := by
  rw [lower]
  split
  · rename_i target htarget
    split
    · rename_i hmem
      exact .inr ⟨hmem.1, htarget⟩
    · exact .inl rfl
  · exact .inl rfl

theorem foldl_lower_cases (z : Zone) (found : Nat) (is : List Instruction) :
    is.foldl z.lower found = found ∨ z.start ≤ is.foldl z.lower found ∧
      ∃ i ∈ is, i.branchTarget? z.arch = some (is.foldl z.lower found) := by
  induction is generalizing found with
  | nil => exact .inl rfl
  | cons i is ih =>
    rw [List.foldl_cons]
    rcases ih (z.lower found i) with hsame | ⟨hstart, j, hj, htarget⟩
    · rw [hsame]
      rcases z.lower_cases found i with hkept | ⟨hstart, htarget⟩
      · exact .inl hkept
      · exact .inr ⟨hstart, i, List.mem_cons_self, htarget⟩
    · exact .inr ⟨hstart, j, List.mem_cons_of_mem i hj, htarget⟩

/-- A pass finds its own start, or the target of a branch that it has gone over. -/
theorem pass_cases {p : Pass} {is : List Instruction} {found : Nat} {w w' : σ}
    (h : Sweep.GoesOver dec (z.lowerTarget p.bound) (z.sweepFrom code p.start) p.start w is found
      w') :
    found = p.start ∨ z.start ≤ found ∧ ∃ i ∈ is, i.branchTarget? z.arch = some found := by
  obtain rfl := h.eq_foldSteps.trans (foldSteps_lowerTarget p.bound p.start is)
  rcases z.foldl_lower_cases p.start (is.takeWhile (·.address < p.bound)) with
    hsame | ⟨hstart, i, hi, htarget⟩
  · exact .inl hsame
  · exact .inr ⟨hstart, i, (List.takeWhile_prefix _).subset hi, htarget⟩

namespace Search

variable {p : Pass} {w w' : σ} {legs : List Leg} {t : Nat}

theorem head?_eq (h : z.Search code dec p w legs t w') : legs.head?.map (·.toPass) = some p := by
  cases h with
  | settled pass le => rfl
  | lowered pass lt rest => rfl

theorem getLast?_eq (h : z.Search code dec p w legs t w') :
    legs.getLast?.map (·.start) = some t := by
  induction h with
  | settled pass le => rfl
  | lowered pass lt rest ih =>
    rename_i legs
    cases legs with
    | nil => cases ih
    | cons leg legs => rwa [List.getLast?_cons_cons]

/-- Each pass begins before the one in front of it, and is bound by where that one began. -/
theorem descends (h : z.Search code dec p w legs t w') :
    legs.IsChain fun a b => b.start < a.start ∧ b.bound = a.start := by
  induction h with
  | settled pass le => exact .singleton _
  | lowered pass lt rest ih =>
    rename_i legs
    cases legs with
    | nil => exact .singleton _
    | cons leg legs =>
      have hleg : leg.toPass = _ := Option.some.inj rest.head?_eq
      refine .cons_cons ?_ ih
      rw [hleg]
      exact ⟨lt, rfl⟩

theorem mem_range (h : z.Search code dec p w legs t w') :
    t ≤ p.start ∧ ∀ leg ∈ legs, t ≤ leg.start ∧ leg.start ≤ p.start := by
  induction h with
  | settled pass le => simp
  | lowered pass lt rest ih =>
    obtain ⟨hle, hlegs⟩ := ih
    dsimp only at hle hlegs
    refine ⟨by omega, List.forall_mem_cons.2 ⟨⟨by dsimp only; omega, Nat.le_refl _⟩, ?_⟩⟩
    intro leg hleg
    have hleg := hlegs leg hleg
    omega

theorem start_le (h : z.Search code dec p w legs t w') (hstart : z.start ≤ p.start) :
    z.start ≤ t := by
  induction h with
  | settled pass le => exact hstart
  | lowered pass lt rest ih =>
    rcases pass_cases pass with hsame | ⟨hfound, -⟩
    · exact absurd hsame (Nat.ne_of_lt lt)
    · exact ih hfound

/-- There are no more passes than places to begin one. -/
theorem length_le (h : z.Search code dec p w legs t w') : legs.length ≤ p.start - t + 1 := by
  induction h with
  | settled pass le => exact Nat.le_add_left _ _
  | lowered pass lt rest ih =>
    have hle := rest.mem_range.1
    dsimp only at ih hle
    rw [List.length_cons]
    omega

theorem decoded_le (h : z.Search code dec p w legs t w') :
    ∀ leg ∈ legs, leg.decoded.length ≤ code.size := by
  induction h with
  | settled pass le =>
    have hle := pass.length_le
    simp only [sweepFrom, Code.size_drop] at hle
    simp only [List.mem_singleton, forall_eq]
    omega
  | lowered pass lt rest ih =>
    have hle := pass.length_le
    simp only [sweepFrom, Code.size_drop] at hle
    exact List.forall_mem_cons.2 ⟨by dsimp only; omega, ih⟩

/-- The start that is found is where the search began, or where a branch leads that one of the passes
has gone over. -/
theorem target_cases (h : z.Search code dec p w legs t w') :
    t = p.start ∨ ∃ leg ∈ legs, ∃ i ∈ leg.decoded, i.branchTarget? z.arch = some t := by
  induction h with
  | settled pass le => exact .inl rfl
  | lowered pass lt rest ih =>
    rcases ih with rfl | ⟨leg, hleg, hi⟩
    · rcases pass_cases pass with hsame | ⟨-, hi⟩
      · exact absurd hsame (Nat.ne_of_lt lt)
      · exact .inr ⟨_, List.mem_cons_self, hi⟩
    · exact .inr ⟨leg, List.mem_cons_of_mem _ hleg, hi⟩

theorem exists_preceding (h : z.Search code dec p w legs t w') (hlt : t < p.start) :
    ∃ made a b, legs = made ++ [a, b] ∧ b.start = t ∧ b.bound = a.start := by
  induction h with
  | settled pass le => exact absurd hlt (Nat.lt_irrefl _)
  | lowered pass lt rest ih =>
    cases rest with
    | settled pass' le' => exact ⟨[], _, _, rfl, rfl, rfl⟩
    | lowered pass' lt' rest' =>
      obtain ⟨made, a, b, hlegs, hb⟩ := ih (Nat.lt_of_le_of_lt rest'.mem_range.1 lt')
      exact ⟨_ :: made, a, b, by rw [hlegs]; rfl, hb⟩

section Follows

variable {content : Array UInt8} {d : Decoding}

theorem map_toPass_eq (h : z.Search (z.code content) dec p w legs t w')
    (hdec : dec.Follows d noFaults) (hstart : z.start ≤ p.start) :
    legs.map (·.toPass) = z.passesFrom content d p := by
  have hlowest : ∀ {p : Pass} {is : List Instruction} {found : Nat} {w w' : σ},
      Sweep.GoesOver dec (z.lowerTarget p.bound) (z.sweepFrom (z.code content) p.start) p.start w is
        found w' → z.start ≤ p.start → found = z.lowest content d p := by
    intro p is found w w' hpass hstart
    exact hpass.eq_fold.1.trans ((z.lowestTarget_of_quiet _ hdec rfl).trans
      (z.lowestTarget_eq_lowest content d p.bound hstart))
  induction h with
  | settled pass le =>
    obtain rfl := hlowest pass hstart
    rw [passesFrom, if_neg (Nat.not_lt.2 le)]
    rfl
  | lowered pass lt rest ih =>
    obtain rfl := hlowest pass hstart
    rw [passesFrom, if_pos lt, List.map_cons, ih (z.start_le_lowest content d hstart)]

end Follows

end Search

/-- What the passes of a search show for the start that it comes to. -/
structure Justifies (z : Zone) (code : Code) (legs : List Leg) (t : Nat) : Prop where
  mem : z.start ≤ t ∧ t ≤ z.entry
  head?_eq : legs.head?.map (·.toPass) = some { start := z.entry, bound := z.stop }
  getLast?_eq : legs.getLast?.map (·.start) = some t
  descends : legs.IsChain fun a b => b.start < a.start ∧ b.bound = a.start
  slice_le : ∀ leg ∈ legs, z.start ≤ leg.start ∧ leg.start - z.start ≤ code.size
  length_le : legs.length ≤ z.entry - z.start + 1
  decoded_le : ∀ leg ∈ legs, leg.decoded.length ≤ code.size
  target_cases : t = z.entry ∨
    ∃ leg ∈ legs, ∃ i ∈ leg.decoded, i.branchTarget? z.arch = some t

/-- No branch of the sweep from the entry reaches before `t`; and if `t` is before the entry, no branch
of the sweep from `t` does that begins before the pass in front of the last one. -/
structure NoneReachesFurther (z : Zone) (content : Array UInt8) (d : Decoding) (legs : List Leg)
    (t : Nat) : Prop where
  from_entry : z.ReachesNoFurther t (z.linear content d z.entry)
  from_start : t < z.entry → ∃ made a b, legs = made ++ [a, b] ∧ b.start = t ∧
    z.ReachesNoFurther t ((z.linear content d t).filter (·.address < a.start))

section FindTrueStart

variable {content : Array UInt8} {d : Decoding} {w w' : σ} {legs : List Leg} {t : Nat}

theorem size_code (hsize : z.stop ≤ content.size) : (z.code content).size = z.stop - z.start := by
  rw [code, ← Code.length_toList, Code.toList_ofArray, Array.length_toList, Array.size_extract]
  omega

theorem Search.justifies (hz : z.fault? = none) (hsize : z.stop ≤ content.size)
    (h : z.Search (z.code content) dec { start := z.entry, bound := z.stop } w legs t w') :
    z.Justifies (z.code content) legs t := by
  obtain ⟨-, hentry⟩ := stop_eq_of_fault? hz
  obtain ⟨hle, hlegs⟩ := h.mem_range
  have hstart := h.start_le hentry.1
  have hlength := h.length_le
  dsimp only at hle hlength
  refine ⟨⟨hstart, hle⟩, h.head?_eq, h.getLast?_eq, h.descends, fun leg hleg => ?_, by omega,
    h.decoded_le, h.target_cases⟩
  have hmem := hlegs leg hleg
  dsimp only at hmem
  rw [size_code hsize]
  omega

theorem mem_passesFrom (z : Zone) (content : Array UInt8) (d : Decoding) (p : Pass) :
    p ∈ z.passesFrom content d p := by
  rw [passesFrom]
  split
  · exact List.mem_cons_self
  · exact List.mem_singleton_self p

/-- Over a fixed decoding nothing reaches before what a search from the entry comes to. -/
theorem Search.noneReachesFurther (hz : z.fault? = none) (hdec : dec.Follows d noFaults)
    (hd : d.Echoes)
    (h : z.Search (z.code content) dec { start := z.entry, bound := z.stop } w legs t w')
    (ht : t = z.trueStart content d) : z.NoneReachesFurther content d legs t := by
  obtain ⟨-, hentry⟩ := stop_eq_of_fault? hz
  have hpasses : legs.map (·.toPass) = z.passes content d := h.map_toPass_eq hdec hentry.1
  have hmet : ∀ p ∈ z.passes content d, z.ReachesNoFurther t (z.met content d p) := by
    rw [ht]
    exact fun p hp => met_reachesNoFurther hz hp
  constructor
  · intro i hi
    have htiles := @linear_tiles d content z hd z.entry
    -- all of the sweep is before the bound of the first pass
    have hbound : i.address < z.stop := by
      have hpos := length_pos_of_mem_linear hi
      have hlast := htiles.stop_le_reach hi
      have hreach := @reach_linear_le d content z z.entry (Nat.le_of_lt hentry.2)
      rw [Instruction.stop] at hlast
      omega
    exact hmet _ (z.mem_passesFrom content d _) i (mem_takeWhile_of_tiles htiles hi hbound)
  · intro hlt
    obtain ⟨made, a, b, hlegs, hb, hbound⟩ := h.exists_preceding hlt
    refine ⟨made, a, b, hlegs, hb, fun i hi => ?_⟩
    have hlast : b.toPass ∈ z.passes content d := by
      rw [← hpasses, hlegs]
      exact List.mem_map_of_mem (List.mem_append_right made (by simp))
    obtain ⟨hi, hlt⟩ := List.mem_filter.1 hi
    rw [decide_eq_true_eq, ← hbound] at hlt
    rw [← hb] at hi
    exact hmet _ hlast i (mem_takeWhile_of_tiles (linear_tiles hd b.start) hi hlt)

/-- Whatever the decoder answers, the search for the start of decoding comes to an end, and its passes
justify the start that it comes to. If the decoder answers as a decoding does, no branch that is met
from the entry on, or from that start on up to the pass in front of the last, reaches further. -/
theorem findTrueStart_isJustified (hz : z.fault? = none) (hsize : z.stop ≤ content.size)
    (dec : Decoder σ) (w : σ) :
    ∃ legs, z.Search (z.code content) dec { start := z.entry, bound := z.stop } w legs
        (z.findTrueStart (z.code content) dec w).1 (z.findTrueStart (z.code content) dec w).2 ∧
      z.Justifies (z.code content) legs (z.findTrueStart (z.code content) dec w).1 ∧
      ∀ d : Decoding, dec.Follows d noFaults → d.Echoes →
        z.NoneReachesFurther content d legs (z.findTrueStart (z.code content) dec w).1 := by
  obtain ⟨legs, hsearch⟩ :=
    z.exists_search (z.code content) dec { start := z.entry, bound := z.stop } w
  exact ⟨legs, hsearch, hsearch.justifies hz hsize, fun d hdec hd =>
    hsearch.noneReachesFurther hz hdec hd (z.reachBack_of_quiet (z.code content) hdec rfl)⟩

end FindTrueStart

/-- The erratic decoder leads the search back from 6 to 3, and then has no instruction there. The loop
leads it back from 2 to 1. -/
theorem findTrueStart_isJustified_looping :
    (∃ legs, Index.scriptedZone.Justifies (Index.scriptedZone.code (Array.replicate 10 0)) legs 3) ∧
      ∃ legs, Index.loopingZone.Justifies (Index.loopingZone.code Index.loopingCode) legs 1 ∧
        Index.loopingZone.NoneReachesFurther Index.loopingCode Index.jumping legs 1 := by
  constructor
  · have hsize : Index.scriptedZone.stop ≤ (Array.replicate 10 (0 : UInt8)).size := by decide
    obtain ⟨legs, -, hjustifies, -⟩ :=
      findTrueStart_isJustified (by decide) hsize Index.scripted Index.erraticScript
    have hstart : (Index.scriptedZone.findTrueStart (Index.scriptedZone.code (Array.replicate 10 0))
        Index.scripted Index.erraticScript).1 = 3 := by
      decide +kernel
    rw [hstart] at hjustifies
    exact ⟨legs, hjustifies⟩
  · have hsize : Index.loopingZone.stop ≤ Index.loopingCode.size := by decide
    obtain ⟨legs, -, hjustifies, hnone⟩ :=
      findTrueStart_isJustified (by decide) hsize Index.jumping.decoder ()
    have hstart : (Index.loopingZone.findTrueStart (Index.loopingZone.code Index.loopingCode)
        Index.jumping.decoder ()).1 = 1 := by
      decide +kernel
    rw [hstart] at hjustifies hnone
    exact ⟨legs, hjustifies, hnone Index.jumping Index.jumping.decoder_follows
      (Decoding.byForm_regular _).echoes⟩

end Zone
end Disassembly
