import Disassembly.Proofs.Labels.Targets
import Disassembly.Proofs.View.Scene

/-! # Looking for labels

Nothing that a scan looks at depends on what has been done before: what is labelled comes from a
sweep of its own, and where it is from the index. So a scan puts in the same labels whenever it is
made, unless something fails on the way.
-/

namespace Disassembly

variable {σ : Type} {source : Source σ} {dec : Decoder σ} {faults : σ → Nat}

namespace Sweep

variable {d : Decoding}

theorem takeOnto_of_noFaults (hdec : dec.Follows d noFaults) (seen : List Instruction) (n : Nat)
    (s : Sweep) (w : σ) :
    (takeOnto dec seen n s w).1 =
      seen.reverse ++ (d.linear s.rest.toList s.address).take n := by
  induction n generalizing seen s w with
  | zero => rw [takeOnto, List.take_zero, List.append_nil]
  | succ n ih =>
    rw [takeOnto]
    split
    · rename_i s' w' h
      rcases next_of_quiet hdec h rfl with ⟨i, hi, -⟩ | ⟨-, hnil⟩
      · cases hi
      · rw [hnil, List.take_nil, List.append_nil]
    · rename_i e s' w' h
      rcases next_of_quiet hdec h rfl with ⟨i, hi, -⟩ | ⟨-, hnil⟩
      · cases hi
      · rw [hnil, List.take_nil, List.append_nil]
    · rename_i i s' w' h
      rcases next_of_quiet hdec h rfl with ⟨j, hj, hcons⟩ | ⟨hne, -⟩
      · cases hj
        rw [ih, hcons, List.take_succ_cons, List.reverse_cons, List.append_assoc]
        rfl
      · exact absurd rfl (hne i)

theorem take_of_noFaults (hdec : dec.Follows d noFaults) (n : Nat) (s : Sweep) (w : σ) :
    (s.take dec n w).1 = (d.linear s.rest.toList s.address).take n :=
  takeOnto_of_noFaults hdec [] n s w

theorem faults_le_of_takeOnto (hdec : dec.Follows d faults) (seen : List Instruction) (n : Nat)
    (s : Sweep) (w : σ) : faults w ≤ faults (takeOnto dec seen n s w).2.2 := by
  induction n generalizing seen s w with
  | zero => exact Nat.le_refl _
  | succ n ih =>
    rw [takeOnto]
    split
    · rename_i s' w' h
      exact faults_le_of_next hdec h
    · rename_i e s' w' h
      exact faults_le_of_next hdec h
    · rename_i i s' w' h
      exact Nat.le_trans (faults_le_of_next hdec h) (ih _ _ _)

theorem faults_le_of_take (hdec : dec.Follows d faults) (n : Nat) (s : Sweep) (w : σ) :
    faults w ≤ faults (s.take dec n w).2.2 :=
  faults_le_of_takeOnto hdec [] n s w

end Sweep

namespace Scene

variable (c : Scene)

theorem exists_lineAt?_of_covers (hd : c.decoding.Echoes) {offset : Nat}
    (h : c.index.covers offset = true) :
    ∃ line, c.lineAt? offset = some line ∧ line < c.index.lineCount := by
  obtain ⟨line, i, hi, hcontains⟩ := (Zone.covers_iff hd).1 h
  refine ⟨line, ?_, Zone.lt_lineCount hi⟩
  rw [lineAt?, (Zone.seekOffset_eq_some_iff hd).2 ⟨line, i, hi, hcontains, rfl⟩]
  rfl

theorem lineAt?_eq_none (hd : c.decoding.Echoes) {offset : Nat}
    (h : c.index.covers offset = false) : c.lineAt? offset = none := by
  rw [lineAt?, Zone.seekOffset_eq_none hd (Bool.eq_false_iff.1 h)]
  rfl

/-- Labels are put in at levels that stay sound. -/
theorem labelled_models {s : Levels} {n : Nat} {flat : List Resolved} (h : s.Models n flat)
    (done : Nat) (ts : List LabelTarget) : ∃ flat', (c.labelled done ts s).Models n flat' := by
  induction ts generalizing s flat done with
  | nil => exact ⟨flat, h⟩
  | cons t ts ih =>
    rw [labelled]
    split
    · exact ih (h.perform _) (done + 1)
    · exact ⟨flat, h⟩

theorem levels_models (scanned : Bool) :
    ∃ flat, (c.levels scanned).Models c.index.lineCount flat := by
  have hstart := Levels.start_models c.index.lineCount
  cases scanned with
  | true => exact c.labelled_models hstart 0 c.targets
  | false => exact ⟨_, hstart⟩

variable {c : Scene} {k : Seeker}

/-- Labelling depends on nothing but the root of the levels. -/
theorem labelled_root {s s₀ : Levels} (h : s.root = s₀.root) (done : Nat) (ts : List LabelTarget) :
    (c.labelled done ts s).root = (c.labelled done ts s₀).root := by
  induction ts generalizing s s₀ done with
  | nil => exact h
  | cons t ts ih =>
    rw [labelled, labelled]
    split
    · apply ih
      rw [Levels.perform, Levels.perform, Levels.insert_congr h]
      split
      · rfl
      · exact h
    · exact h

theorem models_of_root_eq {s s₀ : Levels} {n : Nat} {flat : List Resolved} (h : s₀.Models n flat)
    (hs : s.Sound) (hroot : s.root = s₀.root) : s.Models n flat where
  sound := hs
  lines_eq := by
    rw [← h.lines_eq, Levels.lines, Levels.lines, Levels.size, Levels.size, hroot]
  size_eq := by
    have hsize := h.size_eq
    rwa [Levels.size, Levels.labelCount, ← hroot] at hsize
  code := h.code

theorem byLine_cases (hd : c.decoding.Regular) (hz : c.zone.LiesIn c.content)
    (hsource : source.Serves c.content faults) (hdec : dec.Follows c.decoding faults)
    (hk : k.Sound c.zone c.content c.decoding c.config) {line : Nat} {i : Instruction}
    (hi : c.instructions[line]? = some i) {w w' : σ} {k' : Seeker} {r : Except Error Seek}
    (h : k.byLine source dec c.index line w = (r, k', w')) :
    k'.Sound c.zone c.content c.decoding c.config ∧
      ((r = .ok (c.index.seekOn line i) ∧ faults w' = faults w) ∨
        ((∃ e, r = .error e) ∧ faults w < faults w')) := by
  have hwant := Zone.seekLine_eq_some_iff.2 ⟨i, hi, rfl⟩
  obtain ⟨hsound, hanswers⟩ := Seeker.byLine_answers hd hz hsource hdec hk h
  refine ⟨hsound, ?_⟩
  rcases hanswers with ⟨found, hfound, hr, hw⟩ | ⟨he, hle, hnone⟩
  · obtain rfl := Option.some.inj (hfound.symm.trans hwant)
    exact .inl ⟨hr, hw⟩
  · refine .inr ⟨he, Nat.lt_of_le_of_ne hle fun hquiet => ?_⟩
    cases hwant.symm.trans (hnone hquiet.symm)

theorem byLine_of_instructions (hd : c.decoding.Regular) (hz : c.zone.LiesIn c.content)
    (hsource : source.Serves c.content noFaults) (hdec : dec.Follows c.decoding noFaults)
    (hk : k.Sound c.zone c.content c.decoding c.config) {line : Nat} {i : Instruction}
    (hi : c.instructions[line]? = some i) (w : σ) :
    ∃ k' w', k.byLine source dec c.index line w = (.ok (c.index.seekOn line i), k', w') ∧
      k'.Sound c.zone c.content c.decoding c.config := by
  cases h : k.byLine source dec c.index line w with
  | mk r rest =>
    obtain ⟨k', w'⟩ := rest
    obtain ⟨hk', ⟨rfl, -⟩ | ⟨-, hlt⟩⟩ := byLine_cases hd hz hsource hdec hk hi h
    · exact ⟨k', w', rfl, hk'⟩
    · exact absurd hlt (Nat.lt_irrefl 0)

theorem byOffset_cases (hd : c.decoding.Regular) (hz : c.zone.LiesIn c.content)
    (hsource : source.Serves c.content faults) (hdec : dec.Follows c.decoding faults)
    (hk : k.Sound c.zone c.content c.decoding c.config) {offset line : Nat}
    (hline : c.lineAt? offset = some line) {w w' : σ} {k' : Seeker} {r : Except Error Seek}
    (h : k.byOffset source dec c.index offset w = (r, k', w')) :
    k'.Sound c.zone c.content c.decoding c.config ∧
      ((∃ seek, r = .ok seek ∧ seek.line = line ∧ faults w' = faults w) ∨
        ((∃ e, r = .error e) ∧ faults w < faults w')) := by
  obtain ⟨seek, hseek, rfl⟩ := Option.map_eq_some_iff.1 hline
  obtain ⟨hsound, hanswers⟩ := Seeker.byOffset_answers hd hz hsource hdec hk h
  refine ⟨hsound, ?_⟩
  rcases hanswers with ⟨found, hfound, hr, hw⟩ | ⟨he, hle, hnone⟩
  · rw [hseek] at hfound
    cases hfound
    exact .inl ⟨seek, hr, rfl, hw⟩
  · refine .inr ⟨he, Nat.lt_of_le_of_ne hle fun hquiet => ?_⟩
    rw [hnone hquiet.symm] at hseek
    cases hseek

theorem byOffset_of_lineAt? (hd : c.decoding.Regular) (hz : c.zone.LiesIn c.content)
    (hsource : source.Serves c.content noFaults) (hdec : dec.Follows c.decoding noFaults)
    (hk : k.Sound c.zone c.content c.decoding c.config) {offset line : Nat}
    (hline : c.lineAt? offset = some line) (w : σ) :
    ∃ seek k' w', k.byOffset source dec c.index offset w = (.ok seek, k', w') ∧ seek.line = line ∧
      k'.Sound c.zone c.content c.decoding c.config := by
  cases h : k.byOffset source dec c.index offset w with
  | mk r rest =>
    obtain ⟨k', w'⟩ := rest
    obtain ⟨hk', ⟨seek, rfl, hseek, -⟩ | ⟨-, hlt⟩⟩ := byOffset_cases hd hz hsource hdec hk hline h
    · exact ⟨seek, k', w', rfl, hseek, hk'⟩
    · exact absurd hlt (Nat.lt_irrefl 0)

/-- Labelling covered targets puts all of them in, unless something fails. -/
theorem labelTargets_cases (hd : c.decoding.Regular) (hz : c.zone.LiesIn c.content)
    (hsource : source.Serves c.content faults) (hdec : dec.Follows c.decoding faults)
    (hk : k.Sound c.zone c.content c.decoding c.config) {ts : List LabelTarget}
    (hcovers : ∀ t ∈ ts, c.index.covers t.address = true) {s : Levels} {done : Nat}
    {flat : List Resolved} (hs : s.Models c.index.lineCount flat) (hdone : s.labelCount = done)
    {w w' : σ} {r : Except Error Nat} {s' : Levels} {k' : Seeker}
    (h : Levels.labelTargets source dec c.index done ts s k w = (r, s', k', w')) :
    k'.Sound c.zone c.content c.decoding c.config ∧
      ((r = .ok (done + ts.length) ∧ s' = c.labelled done ts s ∧ faults w' = faults w) ∨
        ((∃ e, r = .error e) ∧ faults w < faults w')) := by
  induction ts generalizing s k done flat w with
  | nil =>
    cases h
    exact ⟨hk, .inl ⟨rfl, rfl, rfl⟩⟩
  | cons t ts ih =>
    obtain ⟨line, hline, hlt⟩ := c.exists_lineAt?_of_covers hd.echoes
      (hcovers t List.mem_cons_self)
    rw [Levels.labelTargets] at h
    cases hseek : k.byOffset source dec c.index t.address w with
    | mk found rest =>
      obtain ⟨k₁, w₁⟩ := rest
      rw [hseek] at h
      obtain ⟨hk₁, ⟨seek, rfl, rfl, hw₁⟩ | ⟨⟨e, rfl⟩, hw₁⟩⟩ :=
        byOffset_cases hd hz hsource hdec hk hline hseek
      -- the labels in front have moved the line of `t` down by `done`
      · have hle : seek.line + done ≤ s.size := by
          rw [hs.size_eq, hdone]
          omega
        obtain ⟨hinsert, hcount⟩ := hs.insert (labelOf t) hle
        dsimp only at h
        rw [show s.insert (seek.line + done)
          { name := t.reason.nameFor t.address, address := t.address } = _ from hinsert] at h
        obtain ⟨hk', hrest⟩ := ih hk₁ (fun u hu => hcovers u (List.mem_cons_of_mem t hu))
          (hs.perform _) (hcount.trans (by rw [hdone])) h
        refine ⟨hk', hrest.imp (fun ⟨hr, hs', hw⟩ => ⟨?_, ?_, ?_⟩) fun ⟨he, hw⟩ => ⟨he, ?_⟩⟩
        · rw [hr, List.length_cons, Nat.add_assoc, Nat.add_comm 1]
        · rw [hs', labelled, hline]
        · omega
        · omega
      · cases h
        exact ⟨hk₁, .inr ⟨⟨_, rfl⟩, hw₁⟩⟩

theorem sliceOf_indexed (hz : c.zone.LiesIn c.content) :
    sliceOf c.content c.index.trueStart (c.index.codeEnd - c.index.trueStart) =
      .ok (c.content.extract c.index.trueStart c.index.codeEnd) := by
  have hstart : c.index.trueStart ≤ c.index.codeEnd := le_reach _ _
  have hstop : c.index.codeEnd ≤ c.content.size := Nat.le_trans (Zone.codeEnd_le hz) hz.stop_le
  rw [sliceOf_eq_ok_iff, Nat.add_sub_cancel' hstart]
  exact ⟨hstop, rfl⟩

theorem linear_indexed (hd : c.decoding.Regular) (hz : c.zone.LiesIn c.content) :
    c.decoding.linear (c.content.extract c.index.trueStart c.index.codeEnd).toList
      c.index.trueStart = c.instructions := by
  have hcut := Decoding.linear_cut hd (c.zone.lines_isPrefix c.content c.decoding c.config)
  have hstart : c.index.trueStart ≤ c.index.codeEnd := le_reach _ _
  have hstop : c.index.codeEnd ≤ c.zone.stop := Zone.codeEnd_le hz
  rw [toList_extract_take (by rw [Nat.add_sub_cancel' (le_reach _ _)]; exact hstop),
    Nat.add_sub_cancel' (le_reach _ _)] at hcut
  exact hcut

theorem collect_take (hd : c.decoding.Regular) (hz : c.zone.LiesIn c.content)
    (hdec : dec.Follows c.decoding noFaults) (w : σ) :
    LabelTarget.collect c.zone c.index ((Sweep.ofArray
      (c.content.extract c.index.trueStart c.index.codeEnd) c.index.trueStart).take dec
        c.index.lineCount w).1 = LabelTarget.collect c.zone c.index c.instructions := by
  rw [Sweep.take_of_noFaults hdec, Sweep.ofArray, Code.toList_ofArray, linear_indexed hd hz]
  rw [show c.index.lineCount = c.instructions.length from rfl, List.take_length]

theorem targets_eq (hd : c.decoding.Regular) (hz : c.zone.LiesIn c.content) :
    c.targets = LabelTarget.collect c.zone c.index c.instructions :=
  collect_take hd hz c.decoding.decoder_follows ()

/-- What a scan labels, if the decoder that it sweeps with may fail. -/
def targetsSeen (c : Scene) (dec : Decoder σ) (w : σ) : List LabelTarget :=
  LabelTarget.collect c.zone c.index ((Sweep.ofArray
    (c.content.extract c.index.trueStart c.index.codeEnd) c.index.trueStart).take dec
      c.index.lineCount w).1

theorem scan_ends (hd : c.decoding.Regular) (hz : c.zone.LiesIn c.content)
    (hsource : source.Serves c.content faults) (hdec : dec.Follows c.decoding faults)
    (hk : k.Sound c.zone c.content c.decoding c.config) {s : Levels} {flat : List Resolved}
    (hs : s.Models c.index.lineCount flat) (hcount : s.labelCount = 0) {w w' : σ}
    {r : Except Error Nat} {s' : Levels} {k' : Seeker}
    (h : s.scan c.zone source dec c.index k w = (r, s', k', w')) :
    k'.Sound c.zone c.content c.decoding c.config ∧ faults w ≤ faults w' ∧
      ((∃ w₁, r = .ok (c.targetsSeen dec w₁).length ∧ s' = c.labelled 0 (c.targetsSeen dec w₁) s) ∨
        ((∃ e, r = .error e) ∧ faults w < faults w')) := by
  rw [Levels.scan, hcount, if_neg (Nat.lt_irrefl 0)] at h
  cases hread : source.read c.index.trueStart (c.index.codeEnd - c.index.trueStart) w with
  | mk bytes w₁ =>
    rw [hread] at h
    rcases hsource.read_cases_of_slice (sliceOf_indexed hz) hread with
      ⟨rfl, hw₁⟩ | ⟨⟨e, rfl⟩, hw₁⟩
    · have htake := Sweep.faults_le_of_take hdec c.index.lineCount (Sweep.ofArray
        (c.content.extract c.index.trueStart c.index.codeEnd) c.index.trueStart) w₁
      have hseen : c.targetsSeen dec w₁ = LabelTarget.collect c.zone c.index _ := rfl
      dsimp only at h
      generalize (Sweep.ofArray (c.content.extract c.index.trueStart c.index.codeEnd)
        c.index.trueStart).take dec c.index.lineCount w₁ = swept at h hseen htake
      obtain ⟨is, fault?, w₂⟩ := swept
      dsimp only at h hseen htake
      rw [← hseen] at h
      obtain ⟨hk', hrest⟩ := labelTargets_cases hd hz hsource hdec hk
        (fun t ht => LabelTarget.covers_of_mem_collect ht) hs hcount h
      rw [Nat.zero_add] at hrest
      refine ⟨hk', ?_, hrest.imp (fun ⟨hr, hs', _⟩ => ⟨w₁, hr, hs'⟩) fun ⟨he, hw'⟩ => ⟨he, by omega⟩⟩
      rcases hrest with ⟨-, -, hw'⟩ | ⟨-, hw'⟩ <;> omega
    · cases h
      exact ⟨hk, Nat.le_of_lt hw₁, .inr ⟨⟨_, rfl⟩, hw₁⟩⟩

/-- Scanning levels without labels puts in those of the scene, unless something fails. -/
theorem scan_cases (hd : c.decoding.Regular) (hz : c.zone.LiesIn c.content)
    (hsource : source.Serves c.content faults) (hdec : dec.Follows c.decoding faults)
    (hpure : dec.Follows c.decoding noFaults)
    (hk : k.Sound c.zone c.content c.decoding c.config) {s : Levels} {flat : List Resolved}
    (hs : s.Models c.index.lineCount flat) (hcount : s.labelCount = 0) {w w' : σ}
    {r : Except Error Nat} {s' : Levels} {k' : Seeker}
    (h : s.scan c.zone source dec c.index k w = (r, s', k', w')) :
    k'.Sound c.zone c.content c.decoding c.config ∧ faults w ≤ faults w' ∧
      ((r = .ok c.targets.length ∧ s' = c.labelled 0 c.targets s) ∨
        ((∃ e, r = .error e) ∧ faults w < faults w')) := by
  obtain ⟨hk', hw, hends⟩ := scan_ends hd hz hsource hdec hk hs hcount h
  refine ⟨hk', hw, hends.imp_left fun ⟨w₁, hr, hs'⟩ => ?_⟩
  rw [show c.targetsSeen dec w₁ = c.targets from
    (collect_take hd hz hpure w₁).trans (targets_eq hd hz).symm] at hr hs'
  exact ⟨hr, hs'⟩

theorem scan_eq (hd : c.decoding.Regular) (hz : c.zone.LiesIn c.content)
    (hsource : source.Serves c.content noFaults) (hdec : dec.Follows c.decoding noFaults)
    (hk : k.Sound c.zone c.content c.decoding c.config) {s : Levels} (hs : s.Sound)
    (hroot : s.root = (c.levels false).root) (w : σ) :
    ∃ s' k' w', s.scan c.zone source dec c.index k w = (.ok c.targets.length, s', k', w') ∧
      s'.Sound ∧ s'.root = (c.levels true).root ∧ k'.Sound c.zone c.content c.decoding c.config := by
  have hcount : s.labelCount = 0 := by
    rw [Levels.labelCount, hroot]
    rfl
  have hmodels := models_of_root_eq (Levels.start_models c.index.lineCount) hs hroot
  cases h : s.scan c.zone source dec c.index k w with
  | mk r rest =>
    obtain ⟨s', k', w'⟩ := rest
    obtain ⟨hk', -, ⟨rfl, rfl⟩ | ⟨-, hlt⟩⟩ :=
      scan_cases hd hz hsource hdec hdec hk hmodels hcount h
    · obtain ⟨flat', hmodels'⟩ := c.labelled_models hmodels 0 c.targets
      exact ⟨_, k', w', rfl, hmodels'.sound, c.labelled_root hroot 0 c.targets, hk'⟩
    · exact absurd hlt (Nat.lt_irrefl 0)

end Scene
end Disassembly
