import Disassembly.Proofs.Index.Counting

/-! # The index that a zone has

Over fixed bytes and a fixed decoding a zone has one start of decoding and one list of lines, and
with some settings one index. Building gives this index as long as nothing fails on the way.
-/

namespace Disassembly

variable {σ : Type} {dec : Decoder σ} {source : Source σ} {d : Decoding} {faults : σ → Nat}
  {content : Array UInt8} {z : Zone}

namespace Zone

def code (z : Zone) (content : Array UInt8) : Code :=
  .ofArray (content.extract z.start z.stop)

/-- Where decoding starts, so that no branch that is met reaches before it. -/
def trueStart (z : Zone) (content : Array UInt8) (d : Decoding) : Nat :=
  (z.findTrueStart (z.code content) d.decoder ()).1

/-- The instructions that are indexed: those before the first run of filler of full length. -/
def lines (z : Zone) (content : Array UInt8) (d : Decoding) (config : Config) :
    List Instruction :=
  beforeRun Instruction.isFiller (max config.fillerRunLimit 1)
    (z.linear content d (z.trueStart content d))

/-- A zone whose description is accepted ends within the address space, and its entry is in it. -/
theorem stop_eq_of_fault? (hz : z.fault? = none) :
    z.stop = z.start + z.size ∧ z.start ≤ z.entry ∧ z.entry < z.stop := by
  have hstop : z.start + z.size < Text.wordBound → z.stop = z.start + z.size := fun h =>
    Nat.min_eq_left (by omega)
  unfold fault? at hz
  split at hz
  · cases hz
  split at hz
  · cases hz
  split at hz
  · cases hz
  rename_i hentry
  simp only [contains, Bool.not_eq_true', Bool.not_eq_false, Bool.and_eq_true,
    decide_eq_true_eq] at hentry
  exact ⟨hstop (by omega), hentry⟩

section FindTrueStart

variable (z : Zone) (code : Code) {start bound : Nat}

theorem lowerTarget_mem {i : Instruction} {found found' : Nat}
    (hfound : z.start ≤ found ∧ found ≤ start)
    (h : z.lowerTarget bound i found = .done found' ∨ z.lowerTarget bound i found = .yield found') :
    z.start ≤ found' ∧ found' ≤ start := by
  unfold lowerTarget at h
  split at h
  · rcases h with h | h <;> cases h
    exact hfound
  · split at h
    · rcases h with h | h <;> cases h
      split
      · omega
      · exact hfound
    · rcases h with h | h <;> cases h
      exact hfound

/-- A pass goes neither before the zone nor forward. -/
theorem lowestTarget_mem (bound : Nat) (hstart : z.start ≤ start) (w : σ) :
    z.start ≤ (z.lowestTarget code dec start bound w).1 ∧
      (z.lowestTarget code dec start bound w).1 ≤ start :=
  Sweep.fold_keeps (p := fun found => z.start ≤ found ∧ found ≤ start)
    (fun _ _ _ hfound h => z.lowerTarget_mem hfound (.inl h))
    (fun _ _ _ hfound h => z.lowerTarget_mem hfound (.inr h)) _ ⟨hstart, Nat.le_refl start⟩ w

theorem faults_le_of_lowestTarget (hdec : dec.Follows d faults) (start bound : Nat) (w : σ) :
    faults w ≤ faults (z.lowestTarget code dec start bound w).2 :=
  Sweep.faults_le_of_fold hdec _ _ _ w

theorem lowestTarget_of_quiet (hdec : dec.Follows d faults) {w : σ}
    (hw : faults (z.lowestTarget code dec start bound w).2 = faults w) :
    (z.lowestTarget code dec start bound w).1 = (z.lowestTarget code d.decoder start bound ()).1 := by
  have hworld := Sweep.fold_of_quiet hdec _ _ _ w hw
  have hpure := Sweep.fold_of_quiet d.decoder_follows (z.lowerTarget bound)
    { rest := code.drop (start - z.start), address := start } start () rfl
  exact hworld.trans hpure.symm

theorem reachBack_eq (w : σ) :
    z.reachBack code dec start bound w =
      if (z.lowestTarget code dec start bound w).1 < start then
        z.reachBack code dec (z.lowestTarget code dec start bound w).1 start
          (z.lowestTarget code dec start bound w).2
      else (start, (z.lowestTarget code dec start bound w).2) := by
  rw [reachBack]

theorem reachBack_mem (hstart : z.start ≤ start) (w : σ) :
    z.start ≤ (z.reachBack code dec start bound w).1 ∧
      (z.reachBack code dec start bound w).1 ≤ start := by
  induction start using Nat.strongRecOn generalizing bound w with
  | ind start ih =>
    have hpass : _ ∧ (z.lowestTarget code dec start bound w).1 ≤ start :=
      z.lowestTarget_mem code bound hstart w
    rw [reachBack_eq]
    split
    · rename_i hlt
      have hrest := @ih _ hlt start hpass.1 (z.lowestTarget code dec start bound w).2
      exact ⟨hrest.1, Nat.le_trans hrest.2 hpass.2⟩
    · exact ⟨hstart, Nat.le_refl start⟩

theorem faults_le_of_reachBack (hdec : dec.Follows d faults) (start bound : Nat) (w : σ) :
    faults w ≤ faults (z.reachBack code dec start bound w).2 := by
  induction start using Nat.strongRecOn generalizing bound w with
  | ind start ih =>
    have hpass := z.faults_le_of_lowestTarget code hdec start bound w
    rw [reachBack_eq]
    split
    · rename_i hlt
      exact Nat.le_trans hpass (ih _ hlt _ _)
    · exact hpass

theorem reachBack_of_quiet (hdec : dec.Follows d faults) {w : σ}
    (hw : faults (z.reachBack code dec start bound w).2 = faults w) :
    (z.reachBack code dec start bound w).1 = (z.reachBack code d.decoder start bound ()).1 := by
  induction start using Nat.strongRecOn generalizing bound w with
  | ind start ih =>
    have hpass := z.faults_le_of_lowestTarget code hdec start bound w
    rw [reachBack_eq] at hw ⊢
    rw [reachBack_eq z code ()]
    split at hw
    · rename_i hlt
      have hrest := z.faults_le_of_reachBack code hdec (z.lowestTarget code dec start bound w).1
        start (z.lowestTarget code dec start bound w).2
      have hquiet : faults (z.lowestTarget code dec start bound w).2 = faults w := by omega
      have hsame := z.lowestTarget_of_quiet code hdec hquiet
      rw [if_pos hlt, if_pos (hsame ▸ hlt), ih _ hlt (by omega), hsame]
    · rename_i hle
      have hsame := z.lowestTarget_of_quiet code hdec hw
      rw [if_neg hle, if_neg (hsame ▸ hle)]

end FindTrueStart

theorem trueStart_mem (hz : z.fault? = none) :
    z.start ≤ z.trueStart content d ∧ z.trueStart content d ≤ z.entry :=
  z.reachBack_mem _ (stop_eq_of_fault? hz).2.1 ()

/-- The zone's instructions from `start` on are within the zone, and each has a length. -/
theorem linear_tiles (hd : d.Echoes) (start : Nat) :
    Tiles start (z.linear content d start) (reach start (z.linear content d start)) :=
  Decoding.linear_tiles hd _ _

theorem reach_linear_le {start : Nat} (hstart : start ≤ z.stop) :
    reach start (z.linear content d start) ≤ z.stop := by
  have hle := d.reach_linear_le (content.extract start z.stop).toList start
  have hlen : (content.extract start z.stop).toList.length ≤ z.stop - start := by
    rw [Array.length_toList, Array.size_extract]
    omega
  exact Nat.le_trans hle (by omega)

theorem length_pos_of_mem_linear {start : Nat} {i : Instruction}
    (hi : i ∈ z.linear content d start) : 0 < i.length := by
  obtain ⟨k, hk, rfl⟩ := List.mem_iff_getElem.1 hi
  obtain ⟨n, -, -, hpos, -⟩ := d.decode_of_linear (List.getElem?_eq_getElem hk)
  exact hpos

theorem lines_isPrefix (z : Zone) (content : Array UInt8) (d : Decoding) (config : Config) :
    z.lines content d config <+: z.linear content d (z.trueStart content d) :=
  beforeRun_isPrefix _

theorem linear_of_lines {config : Config} {line : Nat} {i : Instruction}
    (hi : (z.lines content d config)[line]? = some i) :
    (z.linear content d (z.trueStart content d))[line]? = some i := by
  obtain ⟨hlt, rfl⟩ := List.getElem?_eq_some_iff.1 hi
  exact List.prefix_iff_getElem?.1 (z.lines_isPrefix content d config) line hlt

/-- The lines of the zone are as many instructions of the sweep as there are lines. -/
theorem take_linear_eq_lines (z : Zone) (content : Array UInt8) (d : Decoding) (config : Config) :
    (z.linear content d (z.trueStart content d)).take (z.lines content d config).length =
      z.lines content d config :=
  (List.prefix_iff_eq_take.1 (z.lines_isPrefix content d config)).symm

end Zone

namespace Index

def ofZone (z : Zone) (content : Array UInt8) (d : Decoding) (config : Config) : Index where
  trueStart := z.trueStart content d
  samples := sampled (max config.checkpointSpan 1) (z.trueStart content d) 0
    (z.lines content d config)
  lineCount := (z.lines content d config).length
  codeEnd := reach (z.trueStart content d) (z.lines content d config)

variable {config : Config}

theorem take_linear_ofZone (z : Zone) (content : Array UInt8) (d : Decoding) (config : Config) :
    (z.linear content d (ofZone z content d config).trueStart).take
      (ofZone z content d config).lineCount = z.lines content d config :=
  z.take_linear_eq_lines content d config

theorem faults_le_of_count (z : Zone) (code : Code) (config : Config)
    (hdec : dec.Follows d faults) (start : Nat) (w : σ) :
    faults w ≤ faults (count z code dec config start w).2 :=
  Sweep.faults_le_of_fold hdec _ _ _ w

theorem count_of_quiet (hz : z.fault? = none) (hd : d.Echoes) (hdec : dec.Follows d faults) {w : σ}
    (hw : faults (count z (z.code content) dec config (z.trueStart content d) w).2 = faults w) :
    (count z (z.code content) dec config (z.trueStart content d) w).1 =
      ofZone z content d config := by
  obtain ⟨hstop, hentry⟩ := Zone.stop_eq_of_fault? hz
  obtain ⟨hstart, hle⟩ := @Zone.trueStart_mem d content z hz
  have hfold := Sweep.fold_of_quiet hdec _ _ _ w hw
  rw [show ((z.code content).drop (z.trueStart content d - z.start)).toList = _ from
    Code.toList_drop_extract hstart] at hfold
  rw [count]
  dsimp only
  rw [hfold]
  exact Tally.toIndex_after (Nat.le_max_right _ 1) (Nat.le_max_right _ 1) (Zone.linear_tiles hd _)
    (fun i hi => Zone.length_pos_of_mem_linear hi) (Zone.reach_linear_le (by omega))

theorem build_of_read (hz : z.fault? = none) {w w₁ : σ} {bytes : Array UInt8}
    (hread : source.read z.start z.size w = (.ok bytes, w₁)) :
    build z source dec config w =
      (.ok (count z (.ofArray bytes) dec config (z.findTrueStart (.ofArray bytes) dec w₁).1
          (z.findTrueStart (.ofArray bytes) dec w₁).2).1,
        (count z (.ofArray bytes) dec config (z.findTrueStart (.ofArray bytes) dec w₁).1
          (z.findTrueStart (.ofArray bytes) dec w₁).2).2) := by
  rw [build, Zone.validate, hz]
  dsimp only
  rw [hread]

theorem build_of_read_error (hz : z.fault? = none) {w w₁ : σ} {e : Error}
    (hread : source.read z.start z.size w = (.error e, w₁)) :
    build z source dec config w = (.error (e.during .indexing), w₁) := by
  rw [build, Zone.validate, hz]
  dsimp only
  rw [hread]

/-- A sound zone whose bytes are there has its index built, unless something fails. -/
theorem build_of_quiet (hz : z.fault? = none) (hsize : z.stop ≤ content.size) (hd : d.Echoes)
    (hsource : source.Serves content faults) (hdec : dec.Follows d faults) {w : σ}
    (hw : faults (build z source dec config w).2 = faults w) :
    (build z source dec config w).1 = .ok (ofZone z content d config) := by
  obtain ⟨hstop, -⟩ := Zone.stop_eq_of_fault? hz
  have hslice : sliceOf content z.start z.size = .ok (content.extract z.start z.stop) := by
    rw [sliceOf_eq_ok_iff, hstop]
    exact ⟨by omega, rfl⟩
  cases hread : source.read z.start z.size w with
  | mk r w₁ =>
    have hle := hsource.faults_le hread
    rcases hsource.read_cases_of_slice hslice hread with ⟨rfl, -⟩ | ⟨⟨e, rfl⟩, hlt⟩
    · rw [build_of_read hz hread] at hw ⊢
      change faults (count z (z.code content) dec config
        (z.findTrueStart (z.code content) dec w₁).1
        (z.findTrueStart (z.code content) dec w₁).2).2 = faults w at hw
      have hfind : faults w₁ ≤ faults (z.findTrueStart (z.code content) dec w₁).2 :=
        z.faults_le_of_reachBack (z.code content) hdec z.entry z.stop w₁
      have hcount := faults_le_of_count z (z.code content) config hdec
        (z.findTrueStart (z.code content) dec w₁).1 (z.findTrueStart (z.code content) dec w₁).2
      have hquiet : faults (z.findTrueStart (z.code content) dec w₁).2 = faults w₁ := by omega
      have hstart : (z.findTrueStart (z.code content) dec w₁).1 = z.trueStart content d :=
        z.reachBack_of_quiet (z.code content) hdec hquiet
      rw [hstart] at hw hcount
      change Except.ok (count z (z.code content) dec config
        (z.findTrueStart (z.code content) dec w₁).1
        (z.findTrueStart (z.code content) dec w₁).2).1 = _
      rw [hstart, count_of_quiet hz hd hdec (by omega)]
    · rw [build_of_read_error hz hread] at hw
      exact absurd hw (Nat.ne_of_gt hlt)

theorem eq_ofZone_of_build (hz : z.fault? = none) (hsize : z.stop ≤ content.size) (hd : d.Echoes)
    (hsource : source.Serves content faults) (hdec : dec.Follows d faults) {w w₁ : σ} {index : Index}
    (hbuild : build z source dec config w = (.ok index, w₁)) (hw : faults w₁ = faults w) :
    index = ofZone z content d config := by
  have hquiet : faults (build z source dec config w).2 = faults w := by
    rw [hbuild]
    exact hw
  have hok := build_of_quiet hz hsize hd hsource hdec hquiet
  rw [hbuild] at hok
  exact Except.ok.inj hok

end Index
end Disassembly
