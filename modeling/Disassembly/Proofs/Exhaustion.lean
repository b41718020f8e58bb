import Disassembly.Proofs.LinearSweep
import Mathlib.Data.List.Chain

/-! # The end of a sweep

A sweep asks the decoder once for each instruction, about all that is left and nothing else. Whatever
the decoder answers, an instruction takes bytes off what is left and anything else takes all of them, so
there are no more items than bytes. Once a sweep has come upon something else than an instruction it
finds nothing and asks nothing, however often it is asked for more.
-/

namespace Disassembly

variable {σ : Type} {dec : Decoder σ}

structure Inquiry where
  code : List UInt8
  address : Nat
  answer : Except Error (Option Instruction)

/-- The decoder, in a world that also has a record of what it has been asked. -/
def Decoder.recorded (dec : Decoder σ) : Decoder (σ × List Inquiry) where
  decode code address w :=
    let (answer, w') := dec.decode code address w.1
    (answer, w', w.2 ++ [{ code := code.toList, address, answer }])

theorem Decoder.recorded_decode {code : Code} {address : Nat} {w w' : σ}
    {answer : Except Error (Option Instruction)} (log : List Inquiry)
    (h : dec.decode code address w = (answer, w')) :
    dec.recorded.decode code address (w, log) =
      (answer, w', log ++ [{ code := code.toList, address, answer }]) := by
  simp only [recorded, h]

namespace Sweep

/-- A call for the next item: the addresses that it moved between, what it came upon, and what it
asked the decoder. -/
structure Call where
  address : Nat
  item : Option Item
  asked : List Inquiry
  nextAddress : Nat

def calls (dec : Decoder σ) : Nat → Sweep → σ → List Call
  | 0, _, _ => []
  | n + 1, s, w =>
    let (item, s', w') := s.next dec w
    let asked := (s.next dec.recorded (w, [])).2.2.2
    { address := s.address, item, asked, nextAddress := s'.address } :: calls dec n s' w'

def inquiry (s : Sweep) (answer : Except Error (Option Instruction)) : Inquiry :=
  { code := s.rest.toList, address := s.address, answer }

/-- What a call may come to, and what it leaves of the sweep. -/
inductive Makes (s : Sweep) : Call → Sweep → Prop
  /-- It comes upon an instruction and moves behind it. -/
  | instruction {i : Instruction} (fits : 0 < i.length ∧ i.length ≤ s.rest.size) :
      Makes s
        { address := s.address
          item := some (.instruction i)
          asked := [s.inquiry (.ok (some i))]
          nextAddress := (s.advance i.length).address }
        (s.advance i.length)
  /-- It comes upon a fault or nothing, and moves to the end. -/
  | last {item : Option Item} {answer : Except Error (Option Instruction)}
      (item_ne : ∀ i, item ≠ some (.instruction i)) (left : 0 < s.rest.size) :
      Makes s
        { address := s.address
          item
          asked := [s.inquiry answer]
          nextAddress := s.exhaust.address }
        s.exhaust
  | ended (spent : s.rest.size = 0) :
      Makes s { address := s.address, item := none, asked := [], nextAddress := s.address } s

inductive Run : Sweep → List Call → Prop
  | nil (s : Sweep) : Run s []
  | cons {s s' : Sweep} {c : Call} {cs : List Call} (makes : s.Makes c s') (rest : Run s' cs) :
      Run s (c :: cs)

theorem fits_iff {s : Sweep} {i : Instruction} :
    s.fits i = true ↔ 0 < i.length ∧ i.length ≤ s.rest.size := by
  rw [fits, Bool.and_eq_true, decide_eq_true_eq, decide_eq_true_eq]

/-- Whatever the decoder answers, a call is one of these. -/
theorem next_makes {s s' : Sweep} {w w' : σ} {item : Option Item}
    (h : s.next dec w = (item, s', w')) :
    s.Makes
      { address := s.address
        item
        asked := (s.next dec.recorded (w, [])).2.2.2
        nextAddress := s'.address } s' := by
  cases hrest : s.rest.isEmpty with
  | true =>
    rw [next_of_isEmpty hrest] at h ⊢
    cases h
    exact .ended (by simpa [Code.isEmpty] using hrest)
  | false =>
    have hleft : 0 < s.rest.size := Code.isEmpty_eq_false_iff.1 hrest
    cases hr : dec.decode s.rest s.address w with
    | mk answer w'' =>
      rw [next_of_decode hrest hr] at h
      -- the recorder gives the same answer, so the same branch is taken there
      rw [next_of_decode hrest (Decoder.recorded_decode [] hr)]
      rcases answer with e | _ | i
      · cases h
        exact .last (by simp) hleft
      · cases h
        exact .last (by simp) hleft
      · dsimp only at h ⊢
        split at h <;> rename_i hfits <;> cases h
        · rw [if_pos hfits]
          exact .instruction (fits_iff.1 hfits)
        · rw [if_neg hfits]
          exact .last (by simp) hleft

theorem calls_run (dec : Decoder σ) (n : Nat) (s : Sweep) (w : σ) : Run s (s.calls dec n w) := by
  induction n generalizing s w with
  | zero => exact .nil s
  | succ n ih => exact .cons (next_makes rfl) (ih _ _)

theorem length_calls (dec : Decoder σ) (n : Nat) (s : Sweep) (w : σ) :
    (s.calls dec n w).length = n := by
  induction n generalizing s w with
  | zero => rfl
  | succ n ih => exact congrArg (· + 1) (ih _ _)

@[simp] theorem exhaust_size (s : Sweep) : s.exhaust.rest.size = 0 := by
  simp [exhaust, advance]

/-- What a sweep over `bytes` from `base` on has left: the bytes behind those that it has gone over. -/
structure IsAt (s : Sweep) (bytes : List UInt8) (base : Nat) : Prop where
  base_le : base ≤ s.address
  address_le : s.address ≤ base + bytes.length
  rest_eq : s.rest.toList = bytes.drop (s.address - base)

namespace IsAt

variable {bytes : List UInt8} {base : Nat} {s s' : Sweep} {c : Call}

theorem ofArray (bytes : Array UInt8) (base : Nat) :
    IsAt (.ofArray bytes base) bytes.toList base where
  base_le := Nat.le_refl _
  address_le := Nat.le_add_right _ _
  rest_eq := by simp [Sweep.ofArray]

theorem size_rest (h : s.IsAt bytes base) : s.rest.size = base + bytes.length - s.address := by
  have hle := h.base_le
  rw [← Code.length_toList, h.rest_eq, List.length_drop]
  omega

theorem inquiry_eq (h : s.IsAt bytes base) (answer : Except Error (Option Instruction)) :
    s.inquiry answer =
      { code := bytes.drop (s.address - base), address := s.address, answer } := by
  rw [inquiry, h.rest_eq]

theorem advance (h : s.IsAt bytes base) {n : Nat} (hn : n ≤ s.rest.size) :
    (s.advance n).IsAt bytes base := by
  have hsize := h.size_rest
  obtain ⟨hbase, haddress, hrest⟩ := h
  refine ⟨Nat.le_trans hbase (Nat.le_add_right _ n), ?_, ?_⟩
  · change s.address + n ≤ _
    omega
  · change (s.rest.drop n).toList = bytes.drop (s.address + n - base)
    rw [Code.toList_drop, hrest, List.drop_drop]
    congr 1
    omega

end IsAt

/-- A call asks about the bytes that are left, unless there are none. -/
theorem Makes.asked_eq {s s' : Sweep} {c : Call} (h : s.Makes c s') :
    c.asked = [] ∨ ∃ answer, c.asked = [s.inquiry answer] := by
  cases h with
  | instruction | last => exact .inr ⟨_, rfl⟩
  | ended => exact .inl rfl

theorem Makes.address_eq {s s' : Sweep} {c : Call} (h : s.Makes c s') :
    c.address = s.address ∧ c.nextAddress = s'.address := by
  cases h <;> exact ⟨rfl, rfl⟩

theorem Makes.isAt {bytes : List UInt8} {base : Nat} {s s' : Sweep} {c : Call} (h : s.Makes c s')
    (hs : s.IsAt bytes base) : s'.IsAt bytes base ∧ s.address ≤ s'.address := by
  cases h with
  | instruction fits =>
    exact ⟨hs.advance fits.2, Nat.le_add_right _ _⟩
  | last => exact ⟨hs.advance (Nat.le_refl _), Nat.le_add_right _ _⟩
  | ended => exact ⟨hs, Nat.le_refl _⟩

namespace Run

variable {bytes : List UInt8} {base : Nat} {s : Sweep} {cs : List Call}

theorem exists_makes (h : Run s cs) (hs : s.IsAt bytes base) {c : Call} (hc : c ∈ cs) :
    ∃ t t' : Sweep, t.IsAt bytes base ∧ t.Makes c t' := by
  induction h with
  | nil => cases hc
  | cons makes rest ih =>
    cases hc with
    | head => exact ⟨_, _, hs, makes⟩
    | tail _ hc => exact ih (makes.isAt hs).1 hc

theorem isChain (h : Run s cs) :
    cs.IsChain (fun c c' => c'.address = c.nextAddress) ∧
      ∀ c ∈ cs.head?, c.address = s.address := by
  induction h with
  | nil => exact ⟨.nil, nofun⟩
  | cons makes rest ih =>
    obtain ⟨haddress, hnext⟩ := makes.address_eq
    refine ⟨List.isChain_cons.2 ⟨fun c' hc' => ?_, ih.1⟩, by simpa using haddress⟩
    rw [ih.2 c' hc', hnext]

theorem of_spent (h : Run s cs) (hs : s.rest.size = 0) :
    ∀ c ∈ cs, c.item = none ∧ c.asked = [] := by
  induction h with
  | nil => exact nofun
  | cons makes rest ih =>
    cases makes with
    | instruction fits =>
      omega
    | last _ left => omega
    | ended => exact List.forall_mem_cons.2 ⟨⟨rfl, rfl⟩, ih hs⟩

/-- A call that comes upon something else than an instruction is the last that comes upon anything. -/
theorem nothing_behind {before after : List Call} {c : Call} (h : Run s (before ++ c :: after))
    (hc : ∀ i, c.item ≠ some (.instruction i)) : ∀ c' ∈ after, c'.item = none ∧ c'.asked = [] := by
  induction before generalizing s with
  | nil =>
    cases h with
    | cons makes rest =>
      cases makes with
      | instruction => exact absurd rfl (hc _)
      | last => exact rest.of_spent (exhaust_size s)
      | ended spent => exact rest.of_spent spent
  | cons b before ih =>
    cases h with
    | cons _ rest => exact ih rest

theorem items_of_spent (h : Run s cs) (hs : s.rest.size = 0) : cs.filterMap (·.item) = [] :=
  List.filterMap_eq_nil_iff.2 fun c hc => (h.of_spent hs c hc).1

/-- The items are instructions and at most one fault behind them, and no more than there are bytes. -/
theorem items_eq (h : Run s cs) : ∃ (is : List Instruction) (faults : List Error),
    cs.filterMap (·.item) = is.map Item.instruction ++ faults.map Item.fault ∧
      faults.length ≤ 1 ∧ is.length + faults.length ≤ s.rest.size := by
  induction h with
  | nil => exact ⟨[], [], rfl, Nat.zero_le _, Nat.zero_le _⟩
  | @cons s s' c cs makes rest ih =>
    cases makes with
    | @instruction i fits =>
      obtain ⟨is, faults, hitems, hfaults, hle⟩ := ih
      simp only [advance, Code.size_drop] at hle
      exact ⟨i :: is, faults, by simp [hitems], hfaults, by simp only [List.length_cons]; omega⟩
    | @last item answer item_ne left =>
      have hnil := rest.items_of_spent (exhaust_size s)
      rcases item with _ | i | e
      · exact ⟨[], [], by simp [hnil], Nat.zero_le _, Nat.zero_le _⟩
      · exact absurd rfl (item_ne i)
      · exact ⟨[], [e], by simp [hnil], Nat.le_refl _, left⟩
    | ended spent =>
      exact ⟨[], [], by simp [rest.items_of_spent spent], Nat.zero_le _, Nat.zero_le _⟩

/-- Once there have been as many calls as bytes, nothing is found. -/
theorem item_eq_none (h : Run s cs) : ∀ c ∈ cs.drop s.rest.size, c.item = none := by
  induction h with
  | nil => simp
  | @cons s s' c cs makes rest ih =>
    cases makes with
    | @instruction i fits =>
      simp only [advance, Code.size_drop] at ih
      rw [List.drop_cons (fits.1.trans_le fits.2)]
      exact fun c hc => ih c (List.drop_subset_drop_left _ (by omega) hc)
    | last _ left =>
      rw [List.drop_cons left]
      exact fun c hc => (rest.of_spent (exhaust_size s) c (List.mem_of_mem_drop hc)).1
    | ended spent =>
      rw [spent]
      exact List.forall_mem_cons.2 ⟨rfl, fun c hc => (rest.of_spent spent c hc).1⟩

end Run

/-- What calls for the next item come to over `bytes`, the first of which is at `base`. -/
structure EndsSafely (bytes : Array UInt8) (base : Nat) (calls : List Call) : Prop where
  /-- Calls begin at `base`, and each where the one in front of it has moved to. -/
  head_address : ∀ c ∈ calls.head?, c.address = base
  isChain : calls.IsChain fun c c' => c'.address = c.nextAddress
  within : ∀ c ∈ calls, base ≤ c.address ∧ c.address ≤ c.nextAddress ∧
    c.nextAddress ≤ base + bytes.size
  asked : ∀ c ∈ calls, c.asked = [] ∨ ∃ answer, c.asked = [{
    code := bytes.toList.drop (c.address - base)
    address := c.address
    answer }]
  /-- An instruction is not empty, fits in the bytes that are left, and is what the decoder answered
  when it was asked about them. -/
  instruction : ∀ c ∈ calls, ∀ i, c.item = some (.instruction i) →
    0 < i.length ∧ i.length ≤ base + bytes.size - c.address ∧
      c.nextAddress = c.address + i.length ∧ c.asked = [{
        code := bytes.toList.drop (c.address - base)
        address := c.address
        answer := .ok (some i) }]
  /-- Behind anything else nothing is found, and the decoder is not asked again. -/
  nothing_behind : ∀ {before c after}, calls = before ++ c :: after →
    (∀ i, c.item ≠ some (.instruction i)) → ∀ c' ∈ after, c'.item = none ∧ c'.asked = []
  items_eq : ∃ (is : List Instruction) (faults : List Error),
    calls.filterMap (·.item) = is.map Item.instruction ++ faults.map Item.fault ∧
      faults.length ≤ 1 ∧ is.length + faults.length ≤ bytes.size
  item_eq_none : ∀ c ∈ calls.drop bytes.size, c.item = none

/-- Whatever the decoder answers, a sweep ends after no more items than there are bytes, and stays at
its end. -/
theorem calls_endSafely (dec : Decoder σ) (bytes : Array UInt8) (base n : Nat) (w : σ) :
    ((ofArray bytes base).calls dec n w).length = n ∧
      EndsSafely bytes base ((ofArray bytes base).calls dec n w) := by
  -- what the decoder answers does not matter from here on
  have hrun := calls_run dec n (ofArray bytes base) w
  have hat := IsAt.ofArray bytes base
  refine ⟨length_calls dec n _ w, {
    head_address := hrun.isChain.2
    isChain := hrun.isChain.1
    within := fun c hc => ?_
    asked := fun c hc => ?_
    instruction := fun c hc i hi => ?_
    nothing_behind := fun {before c after} hcalls hc => (hcalls ▸ hrun).nothing_behind hc
    items_eq := hrun.items_eq
    item_eq_none := hrun.item_eq_none }⟩ <;>
    obtain ⟨t, t', ht, hmakes⟩ := hrun.exists_makes hat hc
  · obtain ⟨ht', hle⟩ := hmakes.isAt ht
    rw [hmakes.address_eq.1, hmakes.address_eq.2]
    exact ⟨ht.base_le, hle, ht'.address_le⟩
  · rw [hmakes.address_eq.1]
    simpa only [ht.inquiry_eq] using hmakes.asked_eq
  · cases hmakes with
    | instruction fits =>
      cases hi
      have hsize := ht.size_rest
      rw [Array.length_toList] at hsize
      exact ⟨fits.1, hsize ▸ fits.2, rfl, congrArg (List.cons · []) (ht.inquiry_eq _)⟩
    | last item_ne => exact absurd hi (item_ne i)
    | ended => cases hi

end Sweep
end Disassembly
