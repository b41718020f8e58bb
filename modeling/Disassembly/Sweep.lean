import Disassembly.Decoder

/-! # Linear sweeps

A sweep decodes a run of bytes back to back. x86 does not resynchronise, so a sweep ends at the
first byte that does not decode: after an error, or an answer that cannot be an instruction here,
nothing is left of it.
-/

namespace Disassembly

/-- What is left to decode, and the address of its first byte. -/
structure Sweep where
  rest : Code
  address : Nat

inductive Sweep.Item where
  | instruction (i : Instruction)
  | fault (e : Error)

namespace Sweep

variable {σ : Type} {β : Type}

def ofArray (bytes : Array UInt8) (address : Nat) : Sweep :=
  { rest := .ofArray bytes, address }

def advance (n : Nat) (s : Sweep) : Sweep :=
  { rest := s.rest.drop n, address := s.address + n }

def exhaust (s : Sweep) : Sweep :=
  s.advance s.rest.size

/-- Whether `i` can stand at the front of what is left. -/
def fits (s : Sweep) (i : Instruction) : Bool :=
  0 < i.length && i.length ≤ s.rest.size

/-- Decodes the next instruction. Once nothing is left the decoder is not asked again. -/
def next (dec : Decoder σ) (s : Sweep) (w : σ) : Option Item × Sweep × σ :=
  if s.rest.isEmpty then (none, s, w)
  else
    match dec.decode s.rest s.address w with
    | (.ok (some i), w) =>
      if s.fits i then (some (.instruction i), s.advance i.length, w)
      else (some (.fault { failure := .decode s.address .malformed }), s.exhaust, w)
    | (.ok none, w) => (none, s.exhaust, w)
    | (.error e, w) => (some (.fault e), s.exhaust, w)

/-- An instruction is never empty and never overruns what is left. -/
theorem fits_of_next {dec : Decoder σ} {s s' : Sweep} {w w' : σ} {i : Instruction}
    (h : s.next dec w = (some (.instruction i), s', w')) :
    s.fits i = true ∧ s' = s.advance i.length := by
  unfold next at h
  split at h
  · simp at h
  · split at h
    · split at h
      · simp only [Prod.mk.injEq, Option.some.injEq, Item.instruction.injEq] at h
        obtain ⟨rfl, rfl, rfl⟩ := h
        exact ⟨by assumption, rfl⟩
      · simp at h
    · simp at h
    · simp at h

/-- A sweep that yields an instruction has fewer bytes left. -/
theorem size_rest_lt_of_next {dec : Decoder σ} {s s' : Sweep} {w w' : σ} {i : Instruction}
    (h : s.next dec w = (some (.instruction i), s', w')) : s'.rest.size < s.rest.size := by
  obtain ⟨hfits, rfl⟩ := fits_of_next h
  simp only [fits, Bool.and_eq_true, decide_eq_true_eq] at hfits
  simp only [advance, Code.size_drop]
  omega

/-- Folds `f` over the instructions until it is done, or the sweep is over. The fault that ended the
sweep, if one did, is the second part of the result. -/
def fold (dec : Decoder σ) (f : Instruction → β → ForInStep β) (s : Sweep) (b : β) (w : σ) :
    β × Option Error × σ :=
  match _h : s.next dec w with
  | (none, _, w) => (b, none, w)
  | (some (.fault e), _, w) => (b, some e, w)
  | (some (.instruction i), s', w) =>
    match f i b with
    | .done b => (b, none, w)
    | .yield b => fold dec f s' b w
termination_by s.rest.size
decreasing_by exact size_rest_lt_of_next ‹_›

/-- The first `n` instructions behind `seen`, which has the newest first; no more than `n` are
decoded. -/
def takeOnto (dec : Decoder σ) (seen : List Instruction) :
    Nat → Sweep → σ → List Instruction × Option Error × σ
  | 0, _, w => (seen.reverse, none, w)
  | n + 1, s, w =>
    match s.next dec w with
    | (none, _, w) => (seen.reverse, none, w)
    | (some (.fault e), _, w) => (seen.reverse, some e, w)
    | (some (.instruction i), s, w) => takeOnto dec (i :: seen) n s w

def take (dec : Decoder σ) (n : Nat) (s : Sweep) (w : σ) : List Instruction × Option Error × σ :=
  takeOnto dec [] n s w

end Sweep
end Disassembly
