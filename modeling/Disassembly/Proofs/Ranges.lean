import Disassembly.Proofs.Faults
import Mathlib.Algebra.Group.Nat.Defs

/-! # Ranges of bytes

Bytes in memory and bytes in a file are read behind the same check, which compares the length of a
range with the number of bytes that are left. A range that is not empty passes it only if it lies in
the bytes, so memory and files answer alike. An empty range passes it wherever it begins. Past the
end, a slice of memory is then out of bounds, and a file gives nothing as far as it can be positioned
there.
-/

namespace Disassembly.Source

/-- What reading a range of `content` should come to: the bytes in it, nothing if it is empty, and a
failure that names it if they are not all there. -/
def answerFor (content : Array UInt8) (offset length : Nat) : Except Error (Array UInt8) :=
  if offset + length ≤ content.size then .ok (content.extract offset (offset + length))
  else if length = 0 then .ok #[]
  else .error { failure := .read offset length (.short (content.size - offset)) }

section

variable {content : Array UInt8} {offset length : Nat}

theorem answerFor_of_le (h : offset + length ≤ content.size) :
    answerFor content offset length = .ok (content.extract offset (offset + length)) :=
  if_pos h

theorem answerFor_zero : answerFor content offset 0 = .ok #[] := by
  by_cases h : offset + 0 ≤ content.size
  · rw [answerFor_of_le h, Nat.add_zero, Array.extract_empty_of_stop_le_start (Nat.le_refl offset)]
  · rw [answerFor, if_neg h, if_pos rfl]

theorem answerFor_of_lt (h : content.size < offset + length) (hlength : 0 < length) :
    answerFor content offset length =
      .error { failure := .read offset length (.short (content.size - offset)) } := by
  rw [answerFor, if_neg (Nat.not_le.2 h), if_neg (Nat.ne_of_gt hlength)]

theorem sliceOf_eq_answerFor :
    sliceOf content offset length =
      if length = 0 ∧ content.size < offset then
        .error { failure := .outOfBounds offset content.size }
      else answerFor content offset length := by
  simp only [sliceOf]
  by_cases hrange : offset + length ≤ content.size
  · rw [if_pos (by omega), if_pos (by omega), if_neg (by omega), answerFor_of_le hrange]
  · by_cases hlength : length = 0
    · rw [if_pos (by omega), if_neg (by omega), if_pos (by omega)]
    · rw [if_neg (by omega), if_neg (by omega), answerFor_of_lt (by omega) (by omega)]

end

variable {σ : Type} {content : Array UInt8}

/-- Memory gives what it should, unless the range is empty and past the end. -/
theorem read_ofBytes (content : Array UInt8) (offset length : Nat) (w : σ) :
    (ofBytes content).read offset length w =
      (if length = 0 ∧ content.size < offset then
          .error { failure := .outOfBounds offset content.size }
        else answerFor content offset length, w) :=
  congrArg (·, w) sliceOf_eq_answerFor

/-- A file that holds `content`, and was as long when it was opened. -/
def inFile (content : Array UInt8) : Source σ :=
  .ofFile { size := content.size, content := .ok content }

/-- A file gives what it should, unless the range is empty and no file can be positioned there. -/
theorem read_inFile (hsize : content.size < 2 ^ 63) (offset length : Nat) (w : σ) :
    (inFile content).read offset length w =
      (if length = 0 ∧ 2 ^ 63 ≤ offset then .error { failure := .read offset length .unreachable }
        else answerFor content offset length, w) := by
  have hshift : 1 <<< 63 = 2 ^ 63 := Nat.one_shiftLeft 63
  simp only [inFile, ofFile, hshift]
  by_cases hrange : content.size - offset < length
  · rw [if_pos hrange, if_neg (by omega), answerFor_of_lt (by omega) (by omega)]
  rw [if_neg hrange]
  by_cases hlength : length = 0
  · subst hlength
    rw [answerFor_zero, if_pos rfl]
    simp only [true_and]
  · -- what is not empty lies in the file, and so in reach
    rw [if_neg (by omega), if_neg hlength, if_neg (by omega), if_neg (by omega),
      answerFor_of_le (by omega)]

theorem inFile_serves (hsize : content.size < 2 ^ 63) :
    (inFile content : Source σ).Serves content noFaults where
  size_eq := rfl
  faults_le _ := Nat.le_refl _
  read_cases {offset length w w' r} hrange h := by
    rw [read_inFile hsize, if_neg (by omega), Prod.mk.injEq] at h
    rw [sliceOf_eq_answerFor, if_neg (by omega)]
    exact .inl ⟨h.1.symm, rfl⟩

theorem readClamped_eq_extract {source : Source σ} {w : σ} (hsize : source.size = content.size)
    (hread : ∀ offset length, offset + length ≤ content.size →
      source.read offset length w = (.ok (content.extract offset (offset + length)), w))
    (offset length : Nat) :
    source.readClamped offset length w =
      (.ok (content.extract (min offset content.size) (min (offset + length) content.size)), w) := by
  simp only [readClamped, hsize]
  by_cases hnone : min length (content.size - offset) = 0
  · rw [if_pos hnone, Array.extract_empty_of_stop_le_start (by omega)]
  · have hstart : min offset content.size = offset := by omega
    have hstop : offset + min length (content.size - offset) =
        min (offset + length) content.size := by omega
    rw [if_neg hnone, hread _ _ (by omega), hstart, hstop]

/-- What memory and a file with the same bytes answer for any range, and for the part of it that is
there. They answer alike, and as they should, unless the range is empty and past the end. -/
theorem read_range (hsize : content.size < 2 ^ 63) (offset length : Nat) (w : σ) :
    (ofBytes content).read offset length w =
        (if length = 0 ∧ content.size < offset then
            .error { failure := .outOfBounds offset content.size }
          else answerFor content offset length, w) ∧
      (inFile content).read offset length w =
        (if length = 0 ∧ 2 ^ 63 ≤ offset then
            .error { failure := .read offset length .unreachable }
          else answerFor content offset length, w) ∧
      ∀ source ∈ [ofBytes content, inFile content],
        source.readClamped offset length w =
          (.ok (content.extract (min offset content.size) (min (offset + length) content.size)),
            w) := by
  refine ⟨read_ofBytes content offset length w, read_inFile hsize offset length w, ?_⟩
  simp only [List.forall_mem_cons, List.not_mem_nil, false_implies, implies_true, and_true]
  constructor
  · apply readClamped_eq_extract rfl
    intro offset length hrange
    rw [read_ofBytes, if_neg (by omega), answerFor_of_le hrange]
  · apply readClamped_eq_extract rfl
    intro offset length hrange
    rw [read_inFile hsize, if_neg (by omega), answerFor_of_le hrange]

def fourBytes : Array UInt8 :=
  #[0xaa, 0xbb, 0xcc, 0xdd]

theorem read_range_beyond :
    (ofBytes fourBytes : Source Unit).read 3 9 () =
        (.error { failure := .read 3 9 (.short 1) }, ()) ∧
      (inFile fourBytes : Source Unit).read 3 9 () =
        (.error { failure := .read 3 9 (.short 1) }, ()) ∧
      (ofBytes fourBytes : Source Unit).readClamped 3 9 () = (.ok #[0xdd], ()) := by
  have hsize : fourBytes.size < 2 ^ 63 := by decide
  obtain ⟨hmemory, hfile, hclamped⟩ := read_range hsize 3 9 ()
  exact ⟨hmemory, hfile, hclamped _ List.mem_cons_self⟩

/-- An empty range past the end is out of bounds in memory. A file gives it, but not where no file can
be positioned. -/
theorem empty_range_past_the_end :
    (ofBytes fourBytes : Source Unit).read 5 0 () = (.error { failure := .outOfBounds 5 4 }, ()) ∧
      (inFile fourBytes : Source Unit).read 5 0 () = (.ok #[], ()) ∧
      (inFile fourBytes : Source Unit).read (2 ^ 63) 0 () =
        (.error { failure := .read (2 ^ 63) 0 .unreachable }, ()) ∧
      answerFor fourBytes 5 0 = .ok #[] := by
  refine ⟨rfl, rfl, ?_, rfl⟩
  rw [read_inFile (by decide), if_pos ⟨rfl, Nat.le_refl _⟩]

end Disassembly.Source
