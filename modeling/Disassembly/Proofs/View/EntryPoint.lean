import Disassembly.Proofs.Index.Built
import Disassembly.Proofs.View.Labelling

/-! # Whether the entry is indexed

Where a branch leads back before the entry, decoding starts there, and what is between the two need
not be code. Indexing stops at the first bytes that do not decode, and before the first full run of
filler. So the entry is in the indexed code if neither stands in the way, and only then is it labelled.
-/

namespace Disassembly

variable {σ : Type} {z : Zone} {content : Array UInt8} {d : Decoding} {config : Config}

namespace Zone

/-- Nothing stands in the way from the start of `sweep` to the entry: the sweep comes as far as that,
and no run of `limit` filler instructions begins before. -/
def EntryInReach (z : Zone) (limit start : Nat) (sweep : List Instruction) : Prop :=
  z.entry ≤ reach start sweep ∧
    ∀ k, RunAt Instruction.isFiller limit sweep k → z.entry ≤ reach start (sweep.take k)

/-- A sweep from an instruction that fits begins with it. -/
theorem linear_of_decode (hd : d.Regular) (hsize : z.stop ≤ content.size) {start : Nat}
    {i : Instruction} (hi : d (content.extract start z.stop).toList start = .ok (some i))
    (hfits : i.stop ≤ z.stop) : ∃ rest, z.linear content d start = i :: rest := by
  have hpos := hd.length_pos hi
  have haddress := hd.echoes _ _ _ hi
  have hroom : i.length ≤ (content.extract start z.stop).toList.length := by
    rw [Array.length_toList, Array.size_extract]
    rw [Instruction.stop] at hfits
    omega
  rw [linear, Decoding.linear, hi]
  dsimp only
  rw [if_pos ⟨hpos, hroom⟩]
  exact ⟨_, rfl⟩

/-- If the lines end where an instruction begins that is not filler, there is another line. -/
theorem reach_lines_ne {start : Nat} (hd : d.Regular) (hsize : z.stop ≤ content.size)
    {i : Instruction} (hi : d (content.extract start z.stop).toList start = .ok (some i))
    (hfits : i.stop ≤ z.stop) (hcode : i.isFiller = false) :
    reach (z.trueStart content d) (z.lines content d config) ≠ start := by
  intro hreach
  obtain ⟨rest, hrest⟩ := linear_of_decode hd hsize hi hfits
  have hdrop := z.linear_drop content d (z.trueStart content d) (z.lines content d config).length
  rw [take_linear_eq_lines, hreach, hrest] at hdrop
  by_cases hall : z.lines content d config = z.linear content d (z.trueStart content d)
  · rw [hall, List.drop_length] at hdrop
    cases hdrop
  · -- the lines end before a run of filler, and the first of that is the instruction
    obtain ⟨j, hj, hfiller⟩ := runAt_length_beforeRun hall 0
      (Nat.lt_of_lt_of_le Nat.zero_lt_one (Nat.le_max_right _ _))
    have hhead := congrArg List.head? hdrop
    rw [List.head?_drop, List.head?_cons] at hhead
    obtain rfl : i = j := Option.some.inj (hhead.symm.trans hj)
    rw [hcode] at hfiller
    cases hfiller

/-- The entry is in the indexed code if nothing stands in the way, and only then. -/
theorem covers_entry_iff (hz : z.fault? = none) (hsize : z.stop ≤ content.size) (hd : d.Regular)
    {i : Instruction} (hi : d (content.extract z.entry z.stop).toList z.entry = .ok (some i))
    (hfits : i.stop ≤ z.stop) (hcode : i.isFiller = false) :
    (Index.ofZone z content d config).covers z.entry = true ↔
      z.EntryInReach (max config.fillerRunLimit 1) (z.trueStart content d)
        (z.linear content d (z.trueStart content d)) := by
  have hpre := z.lines_isPrefix content d config
  have hstart := (@trueStart_mem d content z hz).2
  have hne : reach (z.trueStart content d) (z.lines content d config) ≠ z.entry :=
    reach_lines_ne hd hsize hi hfits hcode
  have hcovers : (Index.ofZone z content d config).covers z.entry = true ↔
      z.entry < reach (z.trueStart content d) (z.lines content d config) := by
    rw [Index.covers, Bool.and_eq_true, decide_eq_true_eq, decide_eq_true_eq]
    exact and_iff_right hstart
  -- the lines cannot end at the entry, so covering it is a matter of how far they reach
  rw [hcovers]
  constructor
  · intro hlt
    refine ⟨Nat.le_trans (Nat.le_of_lt hlt) (reach_le_of_isPrefix hpre), fun k hk => ?_⟩
    have hlines : z.lines content d config <+: (z.linear content d (z.trueStart content d)).take k := by
      rw [← z.take_linear_eq_lines]
      exact List.take_prefix_take_left (length_beforeRun_le hk)
    exact Nat.le_trans (Nat.le_of_lt hlt) (reach_le_of_isPrefix hlines)
  · rintro ⟨hreach, hrun⟩
    apply Nat.lt_of_le_of_ne _ hne.symm
    by_cases hall : z.lines content d config = z.linear content d (z.trueStart content d)
    · rwa [hall]
    · have hle := hrun _ (runAt_length_beforeRun hall)
      rwa [show beforeRun Instruction.isFiller _ _ = z.lines content d config from rfl,
        take_linear_eq_lines] at hle

theorem labelAt_entry (z : Zone) (is : List Instruction) :
    z.labelAt is z.entry = { name := "EntryPoint", address := z.entry } := by
  simp [labelAt]

end Zone

namespace Levels

theorem AnswersFlat.exists_peek_iff {s : Levels} {n : Nat} {flat : List Resolved}
    (h : s.AnswersFlat n flat) {entry : Resolved} :
    (∃ line, s.peek line = .ok entry) ↔ entry ∈ flat := by
  simp only [h.peek_eq, answer, List.mem_iff_getElem?]
  apply exists_congr
  intro line
  cases flat[line]? <;> simp

theorem Labelled.exists_label_iff {s : Levels} {index : Index} {is : List Instruction}
    (h : s.Labelled z index is) {address : Nat} :
    (∃ line, s.peek line = .ok (.label (z.labelAt is address))) ↔ z.IsTarget index is address := by
  have hmem (l : Label) : .label l ∈ z.labelledLines index is ↔
      l ∈ (z.labelledLines index is).filterMap Resolved.label? := by
    rw [List.mem_filterMap]
    constructor
    · intro hl
      exact ⟨_, hl, rfl⟩
    · rintro ⟨entry, hentry, hl⟩
      cases entry with
      | label l' =>
        cases hl
        exact hentry
      | instruction r => cases hl
  rw [h.answersFlat.exists_peek_iff, hmem, h.labels_eq, List.mem_map]
  constructor
  · rintro ⟨a, ha, hlabel⟩
    obtain rfl : a = address := congrArg Label.address hlabel
    exact Zone.mem_targetAddresses_iff.1 ha
  · intro htarget
    exact ⟨address, Zone.mem_targetAddresses_iff.2 htarget, rfl⟩

end Levels

namespace Index

variable {source : Source σ} {dec : Decoder σ}

/-- In the index that is built decoding starts at the entry or before it. If an instruction is at the
entry that is not filler, the index covers the entry exactly if nothing stands in the way there, and
a scan gives the entry its label exactly if it is covered. -/
theorem build_covers_entry_iff (config : Config) (hz : z.fault? = none)
    (hsize : z.stop ≤ content.size) (hd : d.Regular) (hsource : source.Serves content noFaults)
    (hdec : dec.Follows d noFaults) {i : Instruction}
    (hi : d (content.extract z.entry z.stop).toList z.entry = .ok (some i))
    (hfits : i.stop ≤ z.stop) (hcode : i.isFiller = false) (w : σ) :
    ∃ index, (build z source dec config w).1 = .ok index ∧ index.trueStart ≤ z.entry ∧
      (index.covers z.entry = true ↔ z.EntryInReach (max config.fillerRunLimit 1) index.trueStart
        (z.linear content d index.trueStart)) ∧
      (index.trueStart = z.entry → index.covers z.entry = true) ∧
      ∀ w', ∃ count s k w'', (Levels.start index.lineCount).scan z source dec index
          (.start z.stop) w' = (.ok count, s, k, w'') ∧
        ((∃ line, s.peek line = .ok (.label { name := "EntryPoint", address := z.entry })) ↔
          index.covers z.entry = true) := by
  refine ⟨ofZone z content d config, build_of_quiet hz hsize hd.echoes hsource hdec rfl,
    (Zone.trueStart_mem hz).2, Zone.covers_entry_iff hz hsize hd hi hfits hcode, ?_, ?_⟩
  · intro hstart
    rw [Zone.covers_entry_iff hz hsize hd hi hfits hcode]
    rw [show z.trueStart content d = z.entry from hstart]
    exact ⟨le_reach _ _, fun k _ => le_reach _ _⟩
  · intro w'
    have hseeker := (@Seeker.Session.start_sound z content d config).seeker
    obtain ⟨s, k, w'', hscan, hlabelled⟩ :=
      Scene.scan_labelled (c := { zone := z, content, decoding := d, config }) hd ⟨hz, hsize⟩
        hsource hdec hseeker (Levels.start_models _) rfl w'
    refine ⟨_, s, k, w'', hscan, ?_⟩
    rw [← Zone.labelAt_entry z (z.lines content d config)]
    refine hlabelled.exists_label_iff.trans ?_
    simp [Zone.IsTarget, Scene.index]

def returning : Decoding :=
  .byForm fun byte =>
    if byte = 0xeb then { length := 2, mnemonic := "jmp", operands := "0" }
    else if byte = 0x06 then { length := 0, mnemonic := "" }
    else { length := 1, mnemonic := "nop" }

/-- Code that a jump at the entry leads back in. -/
def returningCode : Array UInt8 :=
  #[0x90, 0x90, 0xeb, 0xfc, 0x90]

def brokenCode : Array UInt8 :=
  #[0x90, 0x06, 0xeb, 0xfc, 0x90]

def returningZone : Zone where
  start := 0
  size := 5
  entry := 2
  arch := .x64

theorem build_covers_entry_returning :
    ∃ index, (build returningZone (Source.ofBytes returningCode) returning.decoder {} ()).1 =
        .ok index ∧ index.trueStart ≤ returningZone.entry ∧
      (index.covers returningZone.entry = true ↔ returningZone.EntryInReach 30 index.trueStart
        (returningZone.linear returningCode returning index.trueStart)) ∧
      (index.trueStart = returningZone.entry → index.covers returningZone.entry = true) ∧
      ∀ w', ∃ count s k w'', (Levels.start index.lineCount).scan returningZone
          (Source.ofBytes returningCode) returning.decoder index (.start returningZone.stop) w' =
            (.ok count, s, k, w'') ∧
        ((∃ line, s.peek line =
            .ok (.label { name := "EntryPoint", address := returningZone.entry })) ↔
          index.covers returningZone.entry = true) :=
  build_covers_entry_iff {} (by decide) (by decide) (Decoding.byForm_regular _)
    (Source.ofBytes_serves returningCode) returning.decoder_follows
    (i := { address := 2, bytes := [0xeb, 0xfc], mnemonic := "jmp", operands := "0" })
    rfl (by decide) (by decide +kernel) ()

/-- Decoding starts at the target of the jump, and does not come back to the entry from there. -/
theorem build_broken_misses_entry :
    returningZone.fault? = none ∧ returningZone.stop ≤ brokenCode.size ∧ returning.Regular ∧
      (∃ i, returning (brokenCode.extract returningZone.entry returningZone.stop).toList
          returningZone.entry = .ok (some i) ∧ i.stop ≤ returningZone.stop ∧ i.isFiller = false) ∧
      ∃ index, (build returningZone (Source.ofBytes brokenCode) returning.decoder {} ()).1 =
          .ok index ∧ index.covers returningZone.entry = false := by
  have hd : returning.Regular := Decoding.byForm_regular _
  refine ⟨by decide, by decide, hd, ?_, _, build_of_quiet (by decide) (by decide) hd.echoes
    (Source.ofBytes_serves brokenCode) returning.decoder_follows rfl, by decide +kernel⟩
  exact ⟨{ address := 2, bytes := [0xeb, 0xfc], mnemonic := "jmp", operands := "0" },
    rfl, by decide, by decide +kernel⟩

end Index
end Disassembly
