import Disassembly.Proofs.LinearSweep

/-! # What counting comes to

Counting goes instruction by instruction and takes filler back once too much of it has been seen in
a row. What it comes to is said here on the list of the instructions: the lines are those before the
first run of filler of full length, and the checkpoints are sampled from them greedily.
-/

namespace Disassembly

def RunAt {α : Type} (p : α → Bool) (limit : Nat) (as : List α) (k : Nat) : Prop :=
  ∀ j, j < limit → ∃ a, as[k + j]? = some a ∧ p a = true

/-- The elements before the first `limit` in a row that pass `p`; all if there are no such. -/
def beforeRun {α : Type} (p : α → Bool) (limit : Nat) : List α → List α
  | [] => []
  | a :: as =>
    if limit ≤ ((a :: as).takeWhile p).length then [] else a :: beforeRun p limit as

/-- A checkpoint for the first instruction that is `span` bytes behind `last`, and so on from there.
The first of the instructions is on line `line`. -/
def sampled (span : Nat) : (last line : Nat) → List Instruction → List Checkpoint
  | _, _, [] => []
  | last, line, i :: is =>
    if last + span ≤ i.address then
      { offset := i.address, line } :: sampled span i.address (line + 1) is
    else sampled span last (line + 1) is

section BeforeRun

variable {α : Type} {p : α → Bool} {limit : Nat}

theorem beforeRun_isPrefix (as : List α) : beforeRun p limit as <+: as := by
  induction as with
  | nil => exact List.prefix_refl []
  | cons a as ih =>
    rw [beforeRun]
    split
    · exact List.nil_prefix
    · exact List.prefix_cons_inj a |>.2 ih

/-- Elements that pass stay, as long as those behind them do not make the run long enough. -/
theorem beforeRun_append_of_lt {run as : List α} (hrun : ∀ a ∈ run, p a = true)
    (hlt : run.length + (as.takeWhile p).length < limit) :
    beforeRun p limit (run ++ as) = run ++ beforeRun p limit as := by
  induction run with
  | nil => rfl
  | cons a run ih =>
    have hrun' : ∀ b ∈ run, p b = true := fun b hb => hrun b (List.mem_cons_of_mem a hb)
    have htake : ((a :: (run ++ as)).takeWhile p).length
        = (a :: run).length + (as.takeWhile p).length := by
      rw [← List.cons_append, List.takeWhile_append_of_pos hrun, List.length_append]
    rw [List.length_cons] at hlt
    rw [List.cons_append, beforeRun, htake, List.length_cons, if_neg (by omega), ih hrun' (by omega)]
    rfl

theorem beforeRun_of_le {as : List α} (h : limit ≤ (as.takeWhile p).length) :
    beforeRun p limit as = [] := by
  cases as with
  | nil => rfl
  | cons a as => rw [beforeRun, if_pos h]

/-- A run that is too short stays if something else is behind it. -/
theorem beforeRun_append_cons {run as : List α} {a : α} (hrun : ∀ b ∈ run, p b = true)
    (ha : p a = false) (hlt : run.length < limit) :
    beforeRun p limit (run ++ a :: as) = run ++ a :: beforeRun p limit as := by
  have htake : ((a :: as).takeWhile p).length = 0 := by simp [ha]
  rw [beforeRun_append_of_lt hrun (by omega), beforeRun, if_neg (by omega)]

/-- Nothing stays of a run that is long enough. -/
theorem beforeRun_append_of_full {run as : List α} {a : α} (hrun : ∀ b ∈ run, p b = true)
    (ha : p a = true) (hle : limit ≤ run.length + 1) : beforeRun p limit (run ++ a :: as) = [] := by
  refine beforeRun_of_le ?_
  rw [List.takeWhile_append_of_pos hrun, List.takeWhile_cons_of_pos ha, List.length_append,
    List.length_cons]
  omega

theorem runAt_zero_iff {as : List α} : RunAt p limit as 0 ↔ limit ≤ (as.takeWhile p).length := by
  induction as generalizing limit with
  | nil =>
    constructor
    · intro h
      cases limit with
      | zero => exact Nat.zero_le _
      | succ limit =>
        obtain ⟨a, ha, -⟩ := h 0 (Nat.succ_pos limit)
        simp at ha
    · intro h j hj
      simp only [List.takeWhile_nil, List.length_nil] at h
      omega
  | cons a as ih =>
    cases limit with
    | zero =>
      simp only [Nat.zero_le, iff_true]
      exact nofun
    | succ limit =>
      cases ha : p a with
      | false =>
        rw [List.takeWhile_cons_of_neg (by simp [ha]), List.length_nil]
        constructor
        · intro h
          obtain ⟨b, hb, hpb⟩ := h 0 (Nat.succ_pos limit)
          obtain rfl : a = b := by simpa using hb
          simp [ha] at hpb
        · omega
      | true =>
        rw [List.takeWhile_cons_of_pos ha, List.length_cons, Nat.succ_le_succ_iff, ← ih]
        constructor
        · intro h j hj
          simpa [Nat.add_comm, Nat.add_assoc] using h (j + 1) (Nat.succ_lt_succ hj)
        · intro h j hj
          cases j with
          | zero => exact ⟨a, by simp, ha⟩
          | succ j => simpa [Nat.add_comm, Nat.add_assoc] using h j (Nat.lt_of_succ_lt_succ hj)

@[simp] theorem runAt_cons_succ {a : α} {as : List α} {k : Nat} :
    RunAt p limit (a :: as) (k + 1) ↔ RunAt p limit as k := by
  simp only [RunAt, Nat.add_right_comm k 1, List.getElem?_cons_succ]

theorem length_beforeRun_le {as : List α} {k : Nat} (h : RunAt p limit as k) :
    (beforeRun p limit as).length ≤ k := by
  induction as generalizing k with
  | nil => exact Nat.zero_le k
  | cons a as ih =>
    cases k with
    | zero =>
      rw [beforeRun_of_le (runAt_zero_iff.1 h)]
      exact Nat.le_refl 0
    | succ k =>
      rw [beforeRun]
      split
      · exact Nat.zero_le _
      · exact Nat.succ_le_succ (ih (runAt_cons_succ.1 h))

theorem runAt_length_beforeRun {as : List α} (h : beforeRun p limit as ≠ as) :
    RunAt p limit as (beforeRun p limit as).length := by
  induction as with
  | nil => exact absurd rfl h
  | cons a as ih =>
    rw [beforeRun] at h ⊢
    split at h
    · rename_i hle
      rw [if_pos hle]
      exact runAt_zero_iff.2 hle
    · rename_i hlt
      rw [if_neg hlt, List.length_cons, runAt_cons_succ]
      exact ih fun heq => h (by rw [heq])

end BeforeRun

namespace Tally

variable {span limit zoneStop : Nat}

/-- The tally after `is`, or after the run of filler that ended it. -/
abbrev after (span limit zoneStop : Nat) (t : Tally) (is : List Instruction) : Tally :=
  foldSteps (step span limit zoneStop) t is

theorem step_of_code {i : Instruction} (t : Tally) (hi : i.isFiller = false) :
    step span limit zoneStop i t = .yield (countLine span zoneStop i { t with fillerRun := 0 }) := by
  simp [step, noteFiller, hi]

theorem step_of_filler {i : Instruction} (t : Tally) (hi : i.isFiller = true)
    (hlt : t.fillerRun + 1 < limit) :
    step span limit zoneStop i t = .yield (countLine span zoneStop i (t.noteFiller i)) := by
  simp [step, noteFiller, hi, Nat.not_le.2 hlt]

theorem step_of_limit {i : Instruction} (t : Tally) (hi : i.isFiller = true)
    (hle : limit ≤ t.fillerRun + 1) :
    step span limit zoneStop i t = .done (t.noteFiller i).dropFiller := by
  simp [step, noteFiller, hi, hle]

/-- `t` has counted `lines` instructions up to `stop`, and then the filler `run`, which may have to
be taken back. -/
structure Pending (t : Tally) (limit lines stop : Nat) (run : List Instruction) : Prop where
  filler : ∀ i ∈ run, i.isFiller = true
  run_lt : run.length < limit
  fillerRun_eq : t.fillerRun = run.length
  fillerStart_eq : run ≠ [] → t.fillerStart = stop
  lineCount_eq : t.lineCount = lines + run.length
  codeEnd_eq : t.codeEnd = reach stop run

theorem Pending.init (offset : Nat) (hlimit : 0 < limit) :
    (Tally.start offset).Pending limit 0 offset [] where
  filler := nofun
  run_lt := hlimit
  fillerRun_eq := rfl
  fillerStart_eq h := absurd rfl h
  lineCount_eq := rfl
  codeEnd_eq := (reach_nil offset).symm

@[simp] theorem countLine_lineCount (i : Instruction) (t : Tally) :
    (t.countLine span zoneStop i).lineCount = t.lineCount + 1 := by
  simp only [countLine]
  split <;> rfl

@[simp] theorem countLine_codeEnd (i : Instruction) (t : Tally) :
    (t.countLine span zoneStop i).codeEnd = i.stop := by
  simp only [countLine]
  split <;> rfl

@[simp] theorem countLine_fillerRun (i : Instruction) (t : Tally) :
    (t.countLine span zoneStop i).fillerRun = t.fillerRun := by
  simp only [countLine]
  split <;> rfl

@[simp] theorem countLine_fillerStart (i : Instruction) (t : Tally) :
    (t.countLine span zoneStop i).fillerStart = t.fillerStart := by
  simp only [countLine]
  split <;> rfl

/-- Filler that does not yet reach the limit stays pending. -/
theorem Pending.filler_step {t : Tally} {lines stop : Nat} {run : List Instruction}
    {i : Instruction} (h : t.Pending limit lines stop run) (hi : i.isFiller = true)
    (haddr : i.address = reach stop run) (hlt : t.fillerRun + 1 < limit) :
    (countLine span zoneStop i (t.noteFiller i)).Pending limit lines stop (run ++ [i]) where
  filler j hj := by
    rcases List.mem_append.1 hj with hj | hj
    · exact h.filler j hj
    · exact List.mem_singleton.1 hj ▸ hi
  run_lt := by
    rw [List.length_append, List.length_singleton, ← h.fillerRun_eq]
    exact hlt
  fillerRun_eq := by simp [noteFiller, hi, h.fillerRun_eq]
  fillerStart_eq _ := by
    simp only [countLine_fillerStart, noteFiller, hi, if_true]
    split
    · have hnil : run = [] := List.eq_nil_of_length_eq_zero (by rw [← h.fillerRun_eq]; assumption)
      simpa [hnil] using haddr
    · exact h.fillerStart_eq fun hnil => by simp_all [h.fillerRun_eq]
  lineCount_eq := by
    have hl := h.lineCount_eq
    simp only [countLine_lineCount, noteFiller, hi, if_true, List.length_append,
      List.length_singleton]
    omega
  codeEnd_eq := by
    rw [countLine_codeEnd, reach_append, reach_cons, reach_nil, ← haddr, Instruction.stop]

/-- An instruction that is not filler settles what was pending. -/
theorem Pending.code_step {t : Tally} {lines stop : Nat} {run : List Instruction} {i : Instruction}
    (h : t.Pending limit lines stop run) (haddr : i.address = reach stop run) :
    (countLine span zoneStop i { t with fillerRun := 0 }).Pending limit
      (lines + (run ++ [i]).length) (reach stop (run ++ [i])) [] where
  filler := nofun
  run_lt := Nat.lt_of_le_of_lt (Nat.zero_le _) h.run_lt
  fillerRun_eq := by simp
  fillerStart_eq h := absurd rfl h
  lineCount_eq := by
    have hl := h.lineCount_eq
    simp only [countLine_lineCount, List.length_append, List.length_singleton, List.length_nil]
    omega
  codeEnd_eq := by
    rw [countLine_codeEnd, reach_nil, reach_append, reach_cons, reach_nil, ← haddr,
      Instruction.stop]

/-- Once the limit is reached, what was pending is taken back. -/
theorem Pending.full_step {t : Tally} {lines stop : Nat} {run : List Instruction} {i : Instruction}
    (h : t.Pending limit lines stop run) (hi : i.isFiller = true)
    (haddr : i.address = reach stop run) :
    (t.noteFiller i).dropFiller.lineCount = lines ∧ (t.noteFiller i).dropFiller.codeEnd = stop := by
  have hlen := h.fillerRun_eq
  constructor
  · have hl := h.lineCount_eq
    simp only [dropFiller, noteFiller, hi, if_true]
    omega
  · simp only [dropFiller, noteFiller, hi, if_true]
    split
    · have hnil : run = [] := List.eq_nil_of_length_eq_zero (by omega)
      simpa [hnil] using haddr
    · exact h.fillerStart_eq fun hnil => by simp_all

/-- The lines that are left in the end, and where they end, are those before the run of filler. -/
theorem Pending.after_eq {t : Tally} {lines stop end' : Nat} {run rest : List Instruction}
    (h : t.Pending limit lines stop run) (htiles : Tiles stop (run ++ rest) end') :
    (t.after span limit zoneStop rest).lineCount
        = lines + (beforeRun Instruction.isFiller limit (run ++ rest)).length ∧
      (t.after span limit zoneStop rest).codeEnd
        = reach stop (beforeRun Instruction.isFiller limit (run ++ rest)) := by
  induction rest generalizing t lines stop run with
  | nil =>
    rw [beforeRun_append_of_lt h.filler (by simpa using h.run_lt), beforeRun, List.append_nil]
    exact ⟨h.lineCount_eq, h.codeEnd_eq⟩
  | cons i rest ih =>
    have haddr : i.address = reach stop run := by
      have hk := htiles.address_eq (k := run.length) (i := i) (by simp)
      simpa using hk
    have happ : run ++ i :: rest = (run ++ [i]) ++ rest := by simp
    cases hi : i.isFiller with
    | false =>
      -- the run is too short and is not going on, so all of it stays
      have hkeep : beforeRun Instruction.isFiller limit (run ++ i :: rest)
          = (run ++ [i]) ++ beforeRun Instruction.isFiller limit rest := by
        rw [beforeRun_append_cons h.filler hi h.run_lt, List.append_assoc]
        rfl
      obtain ⟨hlines, hend⟩ := ih (h.code_step haddr) (Tiles.append_iff.1 (happ ▸ htiles)).2
      rw [after, foldSteps, step_of_code t hi, hkeep, List.length_append, reach_append,
        ← Nat.add_assoc]
      exact ⟨hlines, hend⟩
    | true =>
      by_cases hlt : t.fillerRun + 1 < limit
      · rw [after, foldSteps, step_of_filler t hi hlt, happ]
        exact ih (h.filler_step hi haddr hlt) (happ ▸ htiles)
      · have hle : limit ≤ run.length + 1 := h.fillerRun_eq ▸ Nat.le_of_not_lt hlt
        rw [after, foldSteps, step_of_limit t hi (Nat.le_of_not_lt hlt),
          beforeRun_append_of_full h.filler hi hle, reach_nil, List.length_nil, Nat.add_zero]
        exact h.full_step hi haddr

/-- The instructions that are counted, also those that are taken back again; `seen` filler
instructions have just been seen in a row. -/
def counted (limit : Nat) : (seen : Nat) → List Instruction → List Instruction
  | _, [] => []
  | seen, i :: is =>
    if i.isFiller then
      if limit ≤ seen + 1 then [] else i :: counted limit (seen + 1) is
    else i :: counted limit 0 is

theorem counted_isPrefix (seen : Nat) (is : List Instruction) : counted limit seen is <+: is := by
  induction is generalizing seen with
  | nil => exact List.prefix_refl []
  | cons i is ih =>
    rw [counted]
    split
    · split
      · exact List.nil_prefix
      · exact (List.prefix_cons_inj i).2 (ih (seen + 1))
    · exact (List.prefix_cons_inj i).2 (ih 0)

theorem beforeRun_isPrefix_counted {run rest : List Instruction}
    (hrun : ∀ i ∈ run, i.isFiller = true) (hlt : run.length < limit) :
    beforeRun Instruction.isFiller limit (run ++ rest) <+: run ++ counted limit run.length rest := by
  induction rest generalizing run with
  | nil => simpa [counted] using beforeRun_isPrefix run
  | cons i rest ih =>
    cases hi : i.isFiller with
    | false =>
      rw [beforeRun_append_cons hrun hi hlt, counted, hi]
      exact (List.prefix_append_right_inj run).2 <| (List.prefix_cons_inj i).2 <|
        @ih [] nofun (by simp only [List.length_nil]; omega)
    | true =>
      have hrun' : ∀ j ∈ run ++ [i], j.isFiller = true := fun j hj => by
        rcases List.mem_append.1 hj with hj | hj
        · exact hrun j hj
        · exact List.mem_singleton.1 hj ▸ hi
      rw [counted, hi, if_pos rfl]
      split
      · rename_i hle
        rw [beforeRun_append_of_full hrun hi hle]
        exact List.nil_prefix
      · have hnext := ih hrun' (by rw [List.length_append, List.length_singleton]; omega)
        simpa using hnext

/-- Checkpoints behind the instructions that end `span` bytes behind the checkpoint before; `line`
is the line of the first instruction. -/
def sampledBehind (span zoneStop : Nat) : (last line : Nat) → List Instruction → List Checkpoint
  | _, _, [] => []
  | last, line, i :: is =>
    if span ≤ i.stop - last ∧ i.stop < zoneStop then
      { offset := i.stop, line := line + 1 } :: sampledBehind span zoneStop i.stop (line + 1) is
    else sampledBehind span zoneStop last (line + 1) is

theorem samples_countLine (t : Tally) (i : Instruction) (is : List Instruction) :
    (t.countLine span zoneStop i).samples.reverse ++
        sampledBehind span zoneStop (t.countLine span zoneStop i).lastOffset (t.lineCount + 1) is =
      t.samples.reverse ++ sampledBehind span zoneStop t.lastOffset t.lineCount (i :: is) := by
  simp only [countLine, sampledBehind]
  split <;> simp

@[simp] theorem noteFiller_samples (i : Instruction) (t : Tally) :
    (t.noteFiller i).samples = t.samples := by
  simp only [noteFiller]
  split <;> rfl

@[simp] theorem noteFiller_lastOffset (i : Instruction) (t : Tally) :
    (t.noteFiller i).lastOffset = t.lastOffset := by
  simp only [noteFiller]
  split <;> rfl

@[simp] theorem noteFiller_lineCount (i : Instruction) (t : Tally) :
    (t.noteFiller i).lineCount = t.lineCount := by
  simp only [noteFiller]
  split <;> rfl

theorem samples_after (t : Tally) (is : List Instruction) :
    (t.after span limit zoneStop is).samples.reverse = t.samples.reverse ++
      sampledBehind span zoneStop t.lastOffset t.lineCount (counted limit t.fillerRun is) := by
  induction is generalizing t with
  | nil => simp [after, foldSteps, counted, sampledBehind]
  | cons i is ih =>
    have hcount : ∀ u : Tally,
        (after span limit zoneStop (countLine span zoneStop i u) is).samples.reverse =
        u.samples.reverse ++ sampledBehind span zoneStop u.lastOffset u.lineCount
          (i :: counted limit u.fillerRun is) := by
      intro u
      rw [ih, countLine_fillerRun, countLine_lineCount, samples_countLine]
    cases hi : i.isFiller with
    | false =>
      rw [after, foldSteps, step_of_code t hi, counted, hi]
      exact hcount { t with fillerRun := 0 }
    | true =>
      rw [counted, hi, if_pos rfl]
      split
      · rename_i hle
        rw [after, foldSteps, step_of_limit t hi hle]
        simp [dropFiller, sampledBehind]
      · rename_i hlt
        have hrun : (t.noteFiller i).fillerRun = t.fillerRun + 1 := by simp [noteFiller, hi]
        rw [after, foldSteps, step_of_filler t hi (Nat.not_le.1 hlt)]
        have hnext := hcount (t.noteFiller i)
        rwa [noteFiller_samples, noteFiller_lastOffset, noteFiller_lineCount, hrun] at hnext

theorem line_lt_of_mem_sampledBehind {last line : Nat} {is : List Instruction} {c : Checkpoint}
    (hc : c ∈ sampledBehind span zoneStop last line is) : line < c.line := by
  induction is generalizing last line with
  | nil => simp [sampledBehind] at hc
  | cons i is ih =>
    rw [sampledBehind] at hc
    split at hc
    · rcases List.mem_cons.1 hc with rfl | hc
      · exact Nat.lt_succ_self line
      · exact Nat.lt_of_succ_lt (ih hc)
    · exact Nat.lt_of_succ_lt (ih hc)

/-- Of the checkpoints behind instructions, those with an instruction of `i :: is` behind them are
the ones sampled from `is`. -/
theorem filter_sampledBehind (hspan : 0 < span) {last line start stop : Nat} {i : Instruction}
    {is rest : List Instruction} (htiles : Tiles start (i :: is ++ rest) stop)
    (hpos : ∀ j ∈ is, 0 < j.length) (hstop : stop ≤ zoneStop) :
    (sampledBehind span zoneStop last line (i :: is ++ rest)).filter
        (·.line < line + (i :: is).length) =
      sampled span last (line + 1) is := by
  -- the checkpoint behind `i` is for the first of `is`, and is kept if there is one
  induction is generalizing i last line start with
  | nil =>
    rw [sampled, List.filter_eq_nil_iff]
    intro c hc
    have hlt := line_lt_of_mem_sampledBehind hc
    simpa using Nat.succ_le_of_lt hlt
  | cons j is ih =>
    have hj : j.address = i.stop := htiles.2.1
    have hend : i.stop < zoneStop := by
      have hreach := htiles.2.stop_eq
      have hjpos := hpos j List.mem_cons_self
      have hle := le_reach (i.stop + j.length) (is ++ rest)
      change stop = reach i.stop (j :: (is ++ rest)) at hreach
      rw [reach_cons] at hreach
      omega
    have hlen : line + (i :: j :: is).length = line + 1 + (j :: is).length := by
      simp only [List.length_cons]
      omega
    have hnext : ∀ last, (sampledBehind span zoneStop last (line + 1) (j :: is ++ rest)).filter
        (·.line < line + 1 + (j :: is).length) = sampled span last (line + 1 + 1) is := fun last =>
      ih htiles.2 fun k hk => hpos k (List.mem_cons_of_mem j hk)
    rw [List.cons_append, sampledBehind, sampled, hj, hlen]
    by_cases hfar : last + span ≤ i.stop
    · rw [if_pos ⟨by omega, hend⟩, if_pos hfar, List.filter_cons_of_pos, hnext]
      simp
    · rw [if_neg (by omega), if_neg hfar, hnext]

theorem filter_sampledBehind_of_isPrefix (hspan : 0 < span) {start stop : Nat}
    {lines is : List Instruction} (htiles : Tiles start is stop) (hpos : ∀ i ∈ is, 0 < i.length)
    (hstop : stop ≤ zoneStop) (hlines : lines <+: is) :
    (sampledBehind span zoneStop start 0 is).filter (·.line < lines.length) =
      sampled span start 0 lines := by
  obtain ⟨rest, rfl⟩ := hlines
  cases lines with
  | nil => simp [sampled]
  | cons i lines =>
    have hpos' : ∀ j ∈ lines, 0 < j.length := fun j hj =>
      hpos j (List.mem_append_left rest (List.mem_cons_of_mem i hj))
    -- the first instruction is at the first checkpoint, so there is no other one at it
    have hfirst : ¬ start + span ≤ i.address := by
      rw [show i.address = start from htiles.1]
      omega
    rw [sampled, if_neg hfirst, ← filter_sampledBehind hspan htiles hpos' hstop, Nat.zero_add]

/-- The index of what has been counted from `start` on: the lines are the instructions before the
first run of filler of full length, and the checkpoints are sampled from them. -/
theorem toIndex_after (hspan : 0 < span) (hlimit : 0 < limit) {start stop : Nat}
    {is : List Instruction} (htiles : Tiles start is stop) (hpos : ∀ i ∈ is, 0 < i.length)
    (hstop : stop ≤ zoneStop) :
    ((Tally.start start).after span limit zoneStop is).toIndex start =
      { trueStart := start
        samples := sampled span start 0 (beforeRun Instruction.isFiller limit is)
        lineCount := (beforeRun Instruction.isFiller limit is).length
        codeEnd := reach start (beforeRun Instruction.isFiller limit is) } := by
  have hinit := Pending.init start hlimit
  obtain ⟨hlines, hend⟩ :
      ((Tally.start start).after span limit zoneStop is).lineCount = _ ∧
        ((Tally.start start).after span limit zoneStop is).codeEnd = _ := hinit.after_eq htiles
  have hsamples : ((Tally.start start).after span limit zoneStop is).samples.reverse =
      sampledBehind span zoneStop start 0 (counted limit 0 is) := samples_after _ is
  have hpre : beforeRun Instruction.isFiller limit is <+: counted limit 0 is :=
    beforeRun_isPrefix_counted hinit.filler hinit.run_lt
  have hcounted : counted limit 0 is <+: is := counted_isPrefix 0 is
  rw [List.nil_append, Nat.zero_add] at hlines
  rw [List.nil_append] at hend
  rw [toIndex, hlines, hend, hsamples, filter_sampledBehind_of_isPrefix hspan
    (htiles.of_isPrefix hcounted) (fun i hi => hpos i (hcounted.subset hi)) ?_ hpre]
  exact Nat.le_trans (htiles.stop_eq ▸ reach_le_of_isPrefix hcounted) hstop

end Tally
end Disassembly
