import Disassembly.Proofs.Index.Checkpoints

/-! # Indexes under erratic decoders

A decoder may answer the same question differently each time, fail, run out early, or give
instructions that cannot be there. As long as an instruction is where it was asked for, one sweep is
still a list of instructions back to back, although no other sweep need give the same list. What
counting comes to over any such list bounds the index that is built.
-/

namespace Disassembly

variable {σ β : Type} {dec : Decoder σ}

def Decoder.Echoes (dec : Decoder σ) : Prop :=
  ∀ {code : Code} {address : Nat} {w w' : σ} {i : Instruction},
    dec.decode code address w = (.ok (some i), w') → i.address = address

/-- A read gives as many bytes as it was asked for, or fails. -/
def Source.ReadsExactly (source : Source σ) : Prop :=
  ∀ {offset length : Nat} {w w' : σ} {bytes : Array UInt8},
    source.read offset length w = (.ok bytes, w') → bytes.size = length

theorem Source.ofBytes_readsExactly (content : Array UInt8) :
    (Source.ofBytes content : Source σ).ReadsExactly := by
  intro offset length w w' bytes h
  simp only [Source.ofBytes, Prod.mk.injEq] at h
  obtain ⟨hle, rfl⟩ := sliceOf_eq_ok_iff.1 h.1
  rw [Array.size_extract]
  omega

namespace Sweep

theorem next_instruction (hdec : dec.Echoes) {s s' : Sweep} {w w' : σ} {i : Instruction}
    (h : s.next dec w = (some (.instruction i), s', w')) :
    i.address = s.address ∧ 0 < i.length ∧ i.length ≤ s.rest.size ∧ s' = s.advance i.length := by
  obtain ⟨hfits, hs'⟩ := fits_of_next h
  simp only [fits, Bool.and_eq_true, decide_eq_true_eq] at hfits
  refine ⟨?_, hfits.1, hfits.2, hs'⟩
  unfold next at h
  split at h
  · cases h
  · split at h
    · rename_i j w'' hj
      split at h <;> cases h
      exact hdec hj
    · cases h
    · cases h

/-- Whatever the decoder answers, a fold goes over instructions that tile a front part of what was
left. -/
theorem exists_tiles_fold (hdec : dec.Echoes) (f : Instruction → β → ForInStep β) (s : Sweep)
    (b : β) (w : σ) :
    ∃ is, Tiles s.address is (reach s.address is) ∧ (∀ i ∈ is, 0 < i.length) ∧
      reach s.address is ≤ s.address + s.rest.size ∧
      (s.fold dec f b w).1 = foldSteps f b is := by
  -- the sweep is over, `f` is done, or the fold goes on behind an instruction
  fun_induction s.fold dec f b w with
  | case1 s b w s' w' h | case2 s b w e s' w' h =>
    exact ⟨[], (reach_nil _).symm, fun i hi => absurd hi List.not_mem_nil, by simp, rfl⟩
  | case3 s b w i s' w' h b' hf =>
    obtain ⟨haddr, hpos, hlen, -⟩ := next_instruction hdec h
    refine ⟨[i], ⟨haddr, ?_⟩, by simpa using hpos, ?_, by rw [foldSteps, hf]⟩
    · rw [reach_cons, reach_nil, ← haddr]
      rfl
    · rw [reach_cons, reach_nil]
      omega
  | case4 s b w i s' w' h b' hf ih =>
    obtain ⟨haddr, hpos, hlen, rfl⟩ := next_instruction hdec h
    obtain ⟨is, htiles, hall, hle, hfold⟩ := ih
    have hstop : i.stop = s.address + i.length := by rw [Instruction.stop, haddr]
    simp only [advance, Code.size_drop] at htiles hle
    refine ⟨i :: is, ⟨haddr, ?_⟩, ?_, ?_, by rw [foldSteps, hf]; exact hfold⟩
    · rw [reach_cons, hstop]
      exact htiles
    · exact List.forall_mem_cons.2 ⟨hpos, hall⟩
    · rw [reach_cons]
      omega

end Sweep

theorem length_le_reach {start : Nat} {is : List Instruction} (hpos : ∀ i ∈ is, 0 < i.length) :
    start + is.length ≤ reach start is := by
  induction is generalizing start with
  | nil => simp
  | cons i is ih =>
    have hi := hpos i List.mem_cons_self
    have hrest := @ih (start + i.length) fun j hj => hpos j (List.mem_cons_of_mem i hj)
    rw [reach_cons, List.length_cons]
    omega

namespace Index

/-- The index lies within the zone, and its checkpoints lie within its code and keep their
distance. -/
structure IsBounded (x : Index) (z : Zone) (config : Config) : Prop where
  start_le_trueStart : z.start ≤ x.trueStart
  trueStart_le_entry : x.trueStart ≤ z.entry
  trueStart_le_codeEnd : x.trueStart ≤ x.codeEnd
  codeEnd_le_stop : x.codeEnd ≤ z.stop
  lineCount_le : x.lineCount ≤ x.codeEnd - x.trueStart
  head?_checkpoints : x.checkpoints.head? = some { offset := x.trueStart, line := 0 }
  checkpoints_apart : x.checkpoints.Pairwise (Checkpoint.Apart (max config.checkpointSpan 1))
  checkpoint_lt : x.lineCount ≠ 0 → ∀ c ∈ x.checkpoints, c.offset < x.codeEnd ∧ c.line < x.lineCount
  length_checkpoints : x.lineCount = 0 → x.checkpoints.length = 1

def ofLines (span start : Nat) (lines : List Instruction) : Index where
  trueStart := start
  samples := sampled span start 0 lines
  lineCount := lines.length
  codeEnd := reach start lines

section OfLines

variable {span start : Nat} {lines : List Instruction}

theorem exists_line_of_mem_samples {c : Checkpoint} (hspan : 0 < span)
    (htiles : Tiles start lines (reach start lines)) (hc : c ∈ (ofLines span start lines).samples) :
    start + span ≤ c.offset ∧ 0 < c.line ∧
      ∃ i, lines[c.line]? = some i ∧ c.offset = i.address := by
  obtain ⟨hlast, k, i, hk, hoffset, hline⟩ := exists_of_mem_sampled hc
  rw [Nat.zero_add] at hline
  refine ⟨hlast, ?_, i, by rw [hline]; exact hk, hoffset⟩
  -- the first line is where decoding starts, which is too close
  apply Nat.pos_of_ne_zero
  intro hzero
  have haddr := htiles.address_eq hk
  rw [← hline, hzero, List.take_zero, reach_nil] at haddr
  omega

theorem ofLines_checkpoints_apart (hspan : 0 < span)
    (htiles : Tiles start lines (reach start lines)) :
    (ofLines span start lines).checkpoints.Pairwise (Checkpoint.Apart span) := by
  refine List.pairwise_cons.2 ⟨fun c hc => ?_, sampled_apart _ _ _⟩
  obtain ⟨hlast, hline, -⟩ := exists_line_of_mem_samples hspan htiles hc
  exact ⟨hlast, hline⟩

theorem ofLines_checkpoint_lt (hspan : 0 < span) (htiles : Tiles start lines (reach start lines))
    (hpos : ∀ i ∈ lines, 0 < i.length) (hne : lines.length ≠ 0) {c : Checkpoint}
    (hc : c ∈ (ofLines span start lines).checkpoints) :
    c.offset < reach start lines ∧ c.line < lines.length := by
  rcases List.mem_cons.1 hc with rfl | hc
  · have hle := @length_le_reach start lines hpos
    exact ⟨show start < _ by omega, Nat.pos_of_ne_zero hne⟩
  · obtain ⟨-, -, i, hi, hoffset⟩ := exists_line_of_mem_samples hspan htiles hc
    have hmem := List.mem_of_getElem? hi
    have hstop := htiles.stop_le_reach hmem
    have hlen := hpos i hmem
    rw [Instruction.stop] at hstop
    exact ⟨by omega, (List.getElem?_eq_some_iff.1 hi).1⟩

end OfLines

theorem exists_count_eq_ofLines {z : Zone} {code : Code} {config : Config} {start : Nat}
    (hdec : dec.Echoes) (hcode : code.size = z.stop - z.start)
    (hstart : z.start ≤ start ∧ start ≤ z.stop) (w : σ) :
    ∃ lines, (count z code dec config start w).1 =
        ofLines (max config.checkpointSpan 1) start lines ∧
      Tiles start lines (reach start lines) ∧ (∀ i ∈ lines, 0 < i.length) ∧
      reach start lines ≤ z.stop := by
  obtain ⟨is, htiles, hpos, hle, hfold⟩ := Sweep.exists_tiles_fold hdec
    (Tally.step (max config.checkpointSpan 1) (max config.fillerRunLimit 1) z.stop)
    { rest := code.drop (start - z.start), address := start } (.start start) w
  simp only [Code.size_drop] at hle
  have hpre : beforeRun Instruction.isFiller (max config.fillerRunLimit 1) is <+: is :=
    beforeRun_isPrefix is
  have hreach : reach start is ≤ z.stop := by omega
  refine ⟨beforeRun Instruction.isFiller (max config.fillerRunLimit 1) is, ?_,
    htiles.of_isPrefix hpre, fun i hi => hpos i (hpre.subset hi),
    Nat.le_trans (reach_le_of_isPrefix hpre) hreach⟩
  rw [count]
  dsimp only
  rw [hfold]
  exact Tally.toIndex_after (Nat.le_max_right _ 1) (Nat.le_max_right _ 1) htiles hpos hreach

theorem ofLines_isBounded {z : Zone} {config : Config} {start : Nat} {lines : List Instruction}
    (hstart : z.start ≤ start ∧ start ≤ z.entry) (htiles : Tiles start lines (reach start lines))
    (hpos : ∀ i ∈ lines, 0 < i.length) (hstop : reach start lines ≤ z.stop) :
    (ofLines (max config.checkpointSpan 1) start lines).IsBounded z config where
  start_le_trueStart := hstart.1
  trueStart_le_entry := hstart.2
  trueStart_le_codeEnd := le_reach start lines
  codeEnd_le_stop := hstop
  lineCount_le := Nat.le_sub_of_add_le' (length_le_reach hpos)
  head?_checkpoints := rfl
  checkpoints_apart := ofLines_checkpoints_apart (Nat.le_max_right _ 1) htiles
  checkpoint_lt hne _ hc := ofLines_checkpoint_lt (Nat.le_max_right _ 1) htiles hpos hne hc
  length_checkpoints hzero := by
    obtain rfl : lines = [] := List.eq_nil_of_length_eq_zero hzero
    rfl

end Index
end Disassembly
