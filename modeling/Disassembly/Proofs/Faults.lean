import Disassembly.Proofs.Decoding

/-! # Sources and decoders that may fail

Reads and decodes may fail at any time, and for no reason that the bytes give. What a source or a
decoder answers when it does not fail is fixed: the bytes of one file, and one decoding of them. How
often something has failed is counted in the state of the world, by a function `faults`; with
`noFaults` nothing ever fails.
-/

namespace Disassembly

variable {σ : Type}

theorem sliceOf_eq_ok_iff {bytes slice : Array UInt8} {offset length : Nat} :
    sliceOf bytes offset length = .ok slice ↔
      offset + length ≤ bytes.size ∧ slice = bytes.extract offset (offset + length) := by
  simp only [sliceOf]
  split
  · split
    · simp only [Except.ok.injEq, eq_comm (a := slice), iff_and_self]
      omega
    · simp only [reduceCtorEq, false_iff, not_and]
      omega
  · simp only [reduceCtorEq, false_iff, not_and]
    omega

def noFaults (_ : σ) : Nat := 0

/-- Each read gives what `content` has there, or fails and is counted. Nothing is said of what an
empty read past the end comes to, where memory and files differ. -/
structure Source.Serves (source : Source σ) (content : Array UInt8) (faults : σ → Nat) : Prop where
  size_eq : source.size = content.size
  faults_le : ∀ {offset length : Nat} {w w' : σ} {r : Except Error (Array UInt8)},
    source.read offset length w = (r, w') → faults w ≤ faults w'
  read_cases : ∀ {offset length : Nat} {w w' : σ} {r : Except Error (Array UInt8)},
    0 < length ∨ offset ≤ content.size → source.read offset length w = (r, w') →
      (r = sliceOf content offset length ∧ faults w' = faults w) ∨
      ((∃ e, r = .error e) ∧ faults w < faults w')

/-- Each decode answers as `d` does, or gives no instruction and is counted. -/
structure Decoder.Follows (dec : Decoder σ) (d : Decoding) (faults : σ → Nat) : Prop where
  decode_cases : ∀ {code : Code} {address : Nat} {w w' : σ} {r : Except Error (Option Instruction)},
    dec.decode code address w = (r, w') →
      (r = d code.toList address ∧ faults w' = faults w) ∨
      ((∀ i, r ≠ .ok (some i)) ∧ faults w < faults w')

namespace Source.Serves

variable {source : Source σ} {content : Array UInt8} {faults : σ → Nat}

theorem slice_of_read (h : source.Serves content faults) {offset length : Nat} {w w' : σ}
    {bytes : Array UInt8} (hrange : 0 < length ∨ offset ≤ content.size)
    (hr : source.read offset length w = (.ok bytes, w')) :
    sliceOf content offset length = .ok bytes := by
  rcases h.read_cases hrange hr with ⟨hr, -⟩ | ⟨⟨e, he⟩, -⟩
  · exact hr.symm
  · cases he

theorem read_of_quiet (h : source.Serves content faults) {offset length : Nat} {w w' : σ}
    {r : Except Error (Array UInt8)} (hrange : 0 < length ∨ offset ≤ content.size)
    (hr : source.read offset length w = (r, w')) (hw : faults w' = faults w) :
    r = sliceOf content offset length := by
  rcases h.read_cases hrange hr with ⟨hr, -⟩ | ⟨-, hlt⟩
  · exact hr
  · omega

theorem read_cases_of_slice (h : source.Serves content faults) {offset length : Nat} {w w' : σ}
    {slice : Array UInt8} {r : Except Error (Array UInt8)}
    (hslice : sliceOf content offset length = .ok slice)
    (hr : source.read offset length w = (r, w')) :
    (r = .ok slice ∧ faults w' = faults w) ∨ ((∃ e, r = .error e) ∧ faults w < faults w') := by
  have hle := (sliceOf_eq_ok_iff.1 hslice).1
  rw [← hslice]
  exact h.read_cases (.inr (by omega)) hr

end Source.Serves

namespace Decoder.Follows

variable {dec : Decoder σ} {d : Decoding} {faults : σ → Nat}

theorem faults_le (h : dec.Follows d faults) {code : Code} {address : Nat} {w w' : σ}
    {r : Except Error (Option Instruction)} (hr : dec.decode code address w = (r, w')) :
    faults w ≤ faults w' := by
  rcases h.decode_cases hr with ⟨-, hw⟩ | ⟨-, hw⟩ <;> omega

theorem decode_of_quiet (h : dec.Follows d faults) {code : Code} {address : Nat} {w w' : σ}
    {r : Except Error (Option Instruction)} (hr : dec.decode code address w = (r, w'))
    (hw : faults w' = faults w) : r = d code.toList address := by
  rcases h.decode_cases hr with ⟨hr, -⟩ | ⟨-, hlt⟩
  · exact hr
  · omega

end Decoder.Follows

/-- Each decode answers as `d` does, and nothing fails meanwhile. -/
structure Decoder.Answers (dec : Decoder σ) (d : Decoding) (faults : σ → Nat) : Prop where
  decode_eq : ∀ {code : Code} {address : Nat} {w w' : σ} {r : Except Error (Option Instruction)},
    dec.decode code address w = (r, w') → r = d code.toList address ∧ faults w' = faults w

namespace Decoder.Answers

variable {dec : Decoder σ} {d : Decoding} {faults : σ → Nat}

theorem follows (h : dec.Answers d faults) : dec.Follows d faults where
  decode_cases hr := .inl (h.decode_eq hr)

theorem follows_noFaults (h : dec.Answers d faults) : dec.Follows d noFaults where
  decode_cases hr := .inl ⟨(h.decode_eq hr).1, rfl⟩

end Decoder.Answers

def Decoding.decoderIn (d : Decoding) (σ : Type) : Decoder σ where
  decode code address w := (d code.toList address, w)

theorem Decoding.decoderIn_answers (d : Decoding) (faults : σ → Nat) :
    (d.decoderIn σ).Answers d faults where
  decode_eq h := by
    cases h
    exact ⟨rfl, rfl⟩

theorem Source.ofBytes_serves (content : Array UInt8) :
    (Source.ofBytes content : Source σ).Serves content noFaults where
  size_eq := rfl
  faults_le _ := Nat.le_refl _
  read_cases _ h := by
    simp only [Source.ofBytes, Prod.mk.injEq] at h
    exact .inl ⟨h.1.symm, rfl⟩

theorem Decoding.decoder_follows (d : Decoding) : d.decoder.Follows d noFaults where
  decode_cases h := by
    simp only [Decoding.decoder, Prod.mk.injEq] at h
    exact .inl ⟨h.1.symm, rfl⟩

/-- A world that interrupts calls as it is planned, one entry for each call. -/
structure Interruptions where
  plan : List Bool
  count : Nat := 0

namespace Interruptions

def strikes (w : Interruptions) : Bool :=
  w.plan.head? == some true

def next (w : Interruptions) : Interruptions :=
  { plan := w.plan.tail, count := if w.strikes then w.count + 1 else w.count }

theorem count_next_of_strikes {w : Interruptions} (h : w.strikes = true) :
    w.count < w.next.count := by
  rw [next, h, if_pos rfl]
  exact Nat.lt_succ_self w.count

theorem count_next_of_not_strikes {w : Interruptions} (h : ¬ w.strikes = true) :
    w.next.count = w.count :=
  if_neg h

end Interruptions

/-- Bytes in memory behind a device that fails as it is planned. -/
def Source.interrupted (content : Array UInt8) : Source Interruptions where
  size := content.size
  read offset length w :=
    if w.strikes then
      (.error { failure := .read offset length (.device "interrupted") }, w.next)
    else (sliceOf content offset length, w.next)

/-- A decoder that reports the end of the bytes when it is interrupted. -/
def Decoding.interrupted (d : Decoding) : Decoder Interruptions where
  decode code address w := (if w.strikes then .ok none else d code.toList address, w.next)

theorem Source.interrupted_serves (content : Array UInt8) :
    (Source.interrupted content).Serves content Interruptions.count := by
  have hcases : ∀ {offset length : Nat} {w w' : Interruptions} {r : Except Error (Array UInt8)},
      (Source.interrupted content).read offset length w = (r, w') →
        (r = sliceOf content offset length ∧ w'.count = w.count) ∨
          ((∃ e, r = .error e) ∧ w.count < w'.count) := by
    intro offset length w w' r h
    simp only [Source.interrupted] at h
    split at h
    · rename_i hstrikes
      cases h
      exact .inr ⟨⟨_, rfl⟩, w.count_next_of_strikes hstrikes⟩
    · rename_i hstrikes
      cases h
      exact .inl ⟨rfl, w.count_next_of_not_strikes hstrikes⟩
  exact {
    size_eq := rfl
    faults_le := fun h => by rcases hcases h with ⟨-, hw⟩ | ⟨-, hw⟩ <;> omega
    read_cases := fun _ h => hcases h }

theorem Decoding.interrupted_follows (d : Decoding) :
    d.interrupted.Follows d Interruptions.count where
  decode_cases {code address w w' r} h := by
    simp only [Decoding.interrupted, Prod.mk.injEq] at h
    obtain ⟨rfl, rfl⟩ := h
    split
    · rename_i hstrikes
      exact .inr ⟨nofun, w.count_next_of_strikes hstrikes⟩
    · rename_i hstrikes
      exact .inl ⟨rfl, w.count_next_of_not_strikes hstrikes⟩

end Disassembly
