import Disassembly.Proofs.Index.Checkpoints

/-! # One step of a seeker

A seeker that stands where a line begins decodes that line, or something has failed. It sees only a
window of the zone, but a window that was not fetched again has room for any instruction, or ends
where the zone does; so a decoding that looks at no more than the instruction's own bytes answers as
it does in a sweep. Whatever happens, the window stays a piece of the file.
-/

namespace Disassembly

variable {σ : Type}

/-- A zone with a sound description, all bytes of which are in the file. -/
structure Zone.LiesIn (z : Zone) (content : Array UInt8) : Prop where
  fault?_eq : z.fault? = none
  stop_le : z.stop ≤ content.size

namespace Index

variable {z : Zone} {content : Array UInt8} {d : Decoding} {config : Config} {source : Source σ}
  {dec : Decoder σ} {faults : σ → Nat} {index : Index} {w w' : σ}

/-- A zone whose index can be built has a sound description, and all its bytes are in the file. -/
theorem liesIn_of_build (hsource : source.Serves content faults)
    (h : build z source dec config w = (.ok index, w')) : z.LiesIn content := by
  cases hz : z.fault? with
  | some fault =>
    rw [build, Zone.validate, hz] at h
    cases h
  | none =>
    obtain ⟨hstop, hentry⟩ := Zone.stop_eq_of_fault? hz
    cases hread : source.read z.start z.size w with
    | mk r w₁ =>
      rcases r with e | bytes
      · rw [build_of_read_error hz hread] at h
        cases h
      · have hslice := hsource.slice_of_read (.inl (by omega)) hread
        refine ⟨hz, ?_⟩
        rw [hstop]
        exact (sliceOf_eq_ok_iff.1 hslice).1

/-- An index can only be built if the bytes have been read, and then it is that of the zone. -/
theorem eq_ofZone_of_reads (hd : d.Echoes) (hsource : source.Serves content faults)
    (hdec : dec.Follows d noFaults) (h : build z source dec config w = (.ok index, w')) :
    index = ofZone z content d config := by
  have hz := liesIn_of_build hsource h
  cases hread : source.read z.start z.size w with
  | mk r w₁ =>
    rcases r with e | bytes
    · rw [build_of_read_error hz.fault?_eq hread] at h
      cases h
    · -- the same is built from the same bytes in memory
      have hstart : z.start ≤ content.size := by
        have hstop := (Zone.stop_eq_of_fault? hz.fault?_eq).1
        have hle := hz.stop_le
        omega
      have hmemory : (Source.ofBytes content).read z.start z.size w₁ = (.ok bytes, w₁) :=
        Prod.ext (hsource.slice_of_read (.inr hstart) hread) rfl
      rw [build_of_read hz.fault?_eq hread, ← build_of_read hz.fault?_eq hmemory] at h
      exact eq_ofZone_of_build hz.fault?_eq hz.stop_le hd (Source.ofBytes_serves content) hdec h rfl

end Index

def Window.IsSlice (v : Window) (content : Array UInt8) (zoneStop : Nat) : Prop :=
  v.bytes = content.extract v.start v.stop ∧ v.stop ≤ zoneStop

/-- What a seeker always keeps: it knows where the zone ends, and its window is from the file. -/
structure Seeker.Steady (s : Seeker) (z : Zone) (content : Array UInt8) : Prop where
  stop_eq : s.stop = z.stop
  window_slice : ∀ v ∈ s.window, v.IsSlice content z.stop

def Zone.lineStart (z : Zone) (content : Array UInt8) (d : Decoding) (config : Config)
    (line : Nat) : Nat :=
  reach (z.trueStart content d) ((z.lines content d config).take line)

variable {z : Zone} {content : Array UInt8} {d : Decoding} {config : Config}

namespace Zone

theorem lt_lineCount {line : Nat} {i : Instruction}
    (hi : (z.lines content d config)[line]? = some i) :
    line < (Index.ofZone z content d config).lineCount :=
  (List.getElem?_eq_some_iff.1 hi).1

theorem lineStart_eq_address (hd : d.Echoes) {line : Nat} {i : Instruction}
    (hi : (z.lines content d config)[line]? = some i) :
    z.lineStart content d config line = i.address :=
  ((Index.lines_tiles hd).address_eq hi).symm

theorem lineStart_succ (hd : d.Echoes) {line : Nat} {i : Instruction}
    (hi : (z.lines content d config)[line]? = some i) :
    z.lineStart content d config (line + 1) = i.stop :=
  (Index.lines_tiles hd).reach_take_succ hi

theorem decode_line_of_zone (hd : d.Echoes) (hz : z.LiesIn content) {line : Nat} {i : Instruction}
    (hi : (z.lines content d config)[line]? = some i) :
    d (content.extract i.address z.stop).toList i.address = .ok (some i) ∧ i.stop ≤ z.stop := by
  obtain ⟨n, -, hdec, hpos, hfits⟩ := d.decode_of_linear (linear_of_lines hi)
  have haddr := hd _ _ _ hdec
  have hdrop : n = i.address - z.trueStart content d := by omega
  rw [hdrop, toList_extract_drop (by omega)] at hdec hfits
  rw [Array.length_toList, Array.size_extract] at hfits
  have hsize := hz.stop_le
  constructor
  · rwa [show z.trueStart content d + (i.address - z.trueStart content d) = i.address by omega]
      at hdec
  · rw [Instruction.stop]
    omega

/-- A decoding that looks at an instruction's own bytes only finds a line in any bytes of the zone
that have room for it. -/
theorem decode_line (hd : d.Regular) (hz : z.LiesIn content) {line stop : Nat} {i : Instruction}
    (hi : (z.lines content d config)[line]? = some i) (hstop : i.stop ≤ stop) :
    d (content.extract i.address stop).toList i.address = .ok (some i) := by
  obtain ⟨hdec, hend⟩ := decode_line_of_zone hd.echoes hz hi
  have hsize := hz.stop_le
  refine hd.decode_of_take hdec ?_ ?_
  · rw [Array.length_toList, Array.size_extract]
    rw [Instruction.stop] at hend
    omega
  · rw [toList_extract_take hstop, toList_extract_take hend]

end Zone

namespace Seeker

variable {source : Source σ} {dec : Decoder σ} {faults : σ → Nat} {s : Seeker}

theorem fetch_cases (hz : z.LiesIn content) (hsource : source.Serves content faults)
    (hs : s.Steady z content) {offset : Nat} (hoffset : offset ≤ z.stop) {w w' : σ} {s' : Seeker}
    {r : Except Error Unit} (h : s.fetch source offset w = (r, s', w')) :
    (∃ v : Window, r = .ok () ∧ s' = { s with window := some v } ∧ faults w' = faults w ∧
        v.start = offset ∧ v.stop = min z.stop (offset + windowLength) ∧
        v.IsSlice content z.stop) ∨
      ((∃ e, r = .error e) ∧ s' = { s with window := none } ∧ faults w < faults w') := by
  have hsize := hz.stop_le
  have hslice : sliceOf content offset (min (s.stop - offset) windowLength) =
      .ok (content.extract offset (min z.stop (offset + windowLength))) := by
    rw [sliceOf_eq_ok_iff, hs.stop_eq]
    have hend : offset + min (z.stop - offset) windowLength = min z.stop (offset + windowLength) := by
      omega
    rw [hend]
    exact ⟨by omega, rfl⟩
  rw [fetch] at h
  cases hr : source.read offset (min (s.stop - offset) windowLength) w with
  | mk read w₁ =>
    rw [hr] at h
    rcases hsource.read_cases_of_slice hslice hr with ⟨rfl, hw⟩ | ⟨⟨e, rfl⟩, hlt⟩
    · cases h
      have hstop : offset + (content.extract offset (min z.stop (offset + windowLength))).size =
          min z.stop (offset + windowLength) := by
        rw [Array.size_extract]
        omega
      refine .inl ⟨_, rfl, rfl, hw, rfl, hstop, ?_, ?_⟩
      · rw [Window.stop, hstop]
      · rw [Window.stop, hstop]
        exact Nat.min_le_left _ _
    · cases h
      exact .inr ⟨⟨e, rfl⟩, rfl, hlt⟩

theorem toList_codeFrom {v : Window} {zoneStop offset : Nat} (hv : v.IsSlice content zoneStop)
    (hle : v.start ≤ offset) :
    (v.codeFrom offset).toList = (content.extract offset v.stop).toList := by
  rw [Window.codeFrom, hv.1]
  exact Code.toList_drop_extract hle

theorem decodeLine_cases (hd : d.Regular) (hz : z.LiesIn content) (hdec : dec.Follows d faults)
    {line : Nat} {i : Instruction} (hi : (z.lines content d config)[line]? = some i)
    {v : Window} (hv : s.window = some v) (hslice : v.IsSlice content z.stop)
    (hcursor : s.cursor = i.address) (hstart : v.start ≤ i.address) (hroom : i.stop ≤ v.stop)
    {w w' : σ} {s' : Seeker} {r : Except Error Instruction}
    (h : s.decodeLine dec line w = (r, s', w')) :
    (r = .ok i ∧ s' = { s with cursor := i.stop, current := some (line, i) } ∧
        faults w' = faults w) ∨
      ((∃ e, r = .error e) ∧ s' = s ∧ faults w < faults w') := by
  have hcode : s.code.toList = (content.extract i.address v.stop).toList := by
    rw [code, hv, hcursor]
    exact toList_codeFrom hslice hstart
  have hline := Zone.decode_line hd hz hi hroom
  rw [decodeLine] at h
  cases hr : dec.decode s.code s.cursor w with
  | mk answer w₁ =>
    rw [hr] at h
    -- an answer that is none of the decoding's is a fault
    have hanswer := hdec.decode_cases hr
    rw [hcode, hcursor, hline] at hanswer
    rcases hanswer with ⟨rfl, hw⟩ | ⟨hne, hw⟩
    · have hempty : i.bytes.isEmpty = false := by
        rw [List.isEmpty_eq_false_iff, ← List.length_pos_iff]
        exact hd.length_pos hline
      dsimp only at h
      rw [hempty] at h
      cases h
      exact .inl ⟨rfl, rfl, hw⟩
    · rcases answer with e | _ | j
      · cases h
        exact .inr ⟨⟨e, rfl⟩, rfl, hw⟩
      · cases h
        exact .inr ⟨⟨_, rfl⟩, rfl, hw⟩
      · exact absurd rfl (hne j)

/-- A seeker that has just decoded a line: it stands behind it, with the checkpoint and the bound
that `before` had. -/
structure Behind (s : Seeker) (z : Zone) (content : Array UInt8) (line : Nat) (i : Instruction)
    (before : Seeker) : Prop where
  steady : s.Steady z content
  current_eq : s.current = some (line, i)
  cursor_eq : s.cursor = i.stop
  checkpoint_eq : s.checkpoint = before.checkpoint
  bound_eq : s.bound = before.bound

theorem Behind.trans {s₁ s₂ : Seeker} {k l : Nat} {i j : Instruction}
    (h₁ : s₁.Behind z content k i s) (h₂ : s₂.Behind z content l j s₁) :
    s₂.Behind z content l j s where
  steady := h₂.steady
  current_eq := h₂.current_eq
  cursor_eq := h₂.cursor_eq
  checkpoint_eq := h₂.checkpoint_eq.trans h₁.checkpoint_eq
  bound_eq := h₂.bound_eq.trans h₁.bound_eq

/-- How a call on a seeker ends: with `value` if nothing fails, and then `P` is true; or with an
error because something has failed, and then the seeker is steady at least. -/
def Ends {α : Type} (r : Except Error α) (value : α) (P : Prop) (s : Seeker) (z : Zone)
    (content : Array UInt8) (before after : Nat) : Prop :=
  (r = .ok value ∧ P ∧ after = before) ∨
    ((∃ e, r = .error e) ∧ s.Steady z content ∧ before < after)

/-- If no fetch is needed the window has room for any instruction at the cursor. -/
theorem exists_window_of_needsFetch (hs : s.Steady z content) (hneeds : s.needsFetch = false) :
    ∃ v, s.window = some v ∧ v.IsSlice content z.stop ∧ v.start ≤ s.cursor ∧
      (s.cursor + maxInstructionLength ≤ v.stop ∨ z.stop ≤ v.stop) := by
  unfold needsFetch at hneeds
  split at hneeds
  · cases hneeds
  · rename_i v hv
    rw [Bool.or_eq_false_iff, decide_eq_false_iff_not, Bool.and_eq_false_iff,
      decide_eq_false_iff_not, decide_eq_false_iff_not, hs.stop_eq] at hneeds
    have hlong : 0 < maxInstructionLength := by decide
    exact ⟨v, hv, hs.window_slice v hv, by omega, by omega⟩

/-- A seeker that stands where a line begins decodes it, unless something fails. -/
theorem step_cases (hd : d.Regular) (hz : z.LiesIn content) (hsource : source.Serves content faults)
    (hdec : dec.Follows d faults) (hs : s.Steady z content) {line : Nat} {i : Instruction}
    (hi : (z.lines content d config)[line]? = some i) (hcursor : s.cursor = i.address) {w w' : σ}
    {s' : Seeker} {r : Except Error Instruction} (h : s.step source dec line w = (r, s', w')) :
    Ends r i (s'.Behind z content line i s) s' z content (faults w) (faults w') := by
  obtain ⟨hline, hend⟩ := Zone.decode_line_of_zone hd.echoes hz hi
  have hlength : i.stop ≤ i.address + maxInstructionLength :=
    Nat.add_le_add_left (hd.length_le hline) i.address
  rw [step] at h
  cases hneeds : s.needsFetch with
  | false =>
    rw [hneeds, if_neg (by simp)] at h
    obtain ⟨v, hv, hslice, hstart, hroom⟩ := exists_window_of_needsFetch hs hneeds
    rcases decodeLine_cases hd hz hdec hi hv hslice hcursor (by omega) (by omega) h with
      ⟨rfl, rfl, hw⟩ | ⟨he, rfl, hw⟩
    · exact .inl ⟨rfl, ⟨⟨hs.stop_eq, hs.window_slice⟩, rfl, rfl, rfl, rfl⟩, hw⟩
    · exact .inr ⟨he, hs, hw⟩
  | true =>
    rw [hneeds, if_pos rfl] at h
    cases hfetch : s.fetch source s.cursor w with
    | mk fetched rest =>
      obtain ⟨s₁, w₁⟩ := rest
      rw [hfetch] at h
      have hcursor' : s.cursor ≤ z.stop := by
        rw [hcursor]
        exact Nat.le_trans (Nat.le_add_right _ _) hend
      rcases fetch_cases hz hsource hs hcursor' hfetch with
        ⟨v, rfl, rfl, hw₁, hstart, hstop, hslice⟩ | ⟨⟨e, rfl⟩, rfl, hw₁⟩
      · -- the new window begins at the cursor, and is long enough
        have hwide : maxInstructionLength ≤ windowLength := by decide
        have hsteady : ({ s with window := some v } : Seeker).Steady z content :=
          ⟨hs.stop_eq, fun u hu => by cases hu; exact hslice⟩
        rcases decodeLine_cases (s := { s with window := some v }) hd hz hdec hi rfl hslice hcursor
          (by omega) (by omega) h with ⟨rfl, rfl, hw⟩ | ⟨he, rfl, hw⟩
        · exact .inl ⟨rfl, ⟨⟨hsteady.stop_eq, hsteady.window_slice⟩, rfl, rfl, rfl, rfl⟩, by omega⟩
        · exact .inr ⟨he, hsteady, by omega⟩
      · cases h
        exact .inr ⟨⟨e, rfl⟩, ⟨hs.stop_eq, nofun⟩, hw₁⟩

end Seeker
end Disassembly
