import Disassembly.Index.Build
import Disassembly.Proofs.Faults
import Mathlib.Algebra.GroupWithZero.Nat

/-! # The instructions of a linear sweep

Over a fixed decoding a sweep is a list: the instructions decoded back to back from an address, as
long as each is there, has a length, and ends within the bytes. Its members tile the range they
cover. A fold over a sweep in which nothing fails is the same fold over this list, so what it gives
does not depend on the world.
-/

namespace Disassembly

/-- The instructions that `d` finds back to back in `bytes`, the first of which is at `address`. -/
def Decoding.linear (d : Decoding) (bytes : List UInt8) (address : Nat) : List Instruction :=
  match d bytes address with
  | .ok (some i) =>
    if 0 < i.length ∧ i.length ≤ bytes.length then
      i :: d.linear (bytes.drop i.length) (address + i.length)
    else []
  | _ => []
termination_by bytes.length
decreasing_by simp only [List.length_drop]; omega

def Zone.linear (z : Zone) (content : Array UInt8) (d : Decoding) (start : Nat) :
    List Instruction :=
  d.linear (content.extract start z.stop).toList start

/-- The instructions stand one behind the other, the first at `start` and the last up to `stop`. -/
def Tiles : Nat → List Instruction → Nat → Prop
  | start, [], stop => start = stop
  | start, i :: is, stop => i.address = start ∧ Tiles i.stop is stop

/-- What the instructions behind `start` reach up to. -/
def reach (start : Nat) (is : List Instruction) : Nat :=
  start + (is.map (·.length)).sum

section Extract

variable {bytes : Array UInt8} {start next stop : Nat}

theorem toList_extract_drop (h : start ≤ next) :
    (bytes.extract start stop).toList.drop (next - start) = (bytes.extract next stop).toList := by
  have hadd : start + (next - start) = next := by omega
  simp only [Array.toList_extract, List.extract_eq_take_drop, List.drop_take, List.drop_drop, hadd]
  congr 1
  omega

theorem toList_extract_take {n : Nat} (h : start + n ≤ stop) :
    (bytes.extract start stop).toList.take n = (bytes.extract start (start + n)).toList := by
  simp only [Array.toList_extract, List.extract_eq_take_drop, List.take_take]
  congr 1
  omega

theorem Code.toList_drop_extract (h : start ≤ next) :
    ((Code.ofArray (bytes.extract start stop)).drop (next - start)).toList =
      (bytes.extract next stop).toList := by
  rw [Code.toList_drop, Code.toList_ofArray, toList_extract_drop h]

end Extract

section Reach

@[simp] theorem reach_nil (start : Nat) : reach start [] = start := by
  simp [reach]

@[simp] theorem reach_cons (start : Nat) (i : Instruction) (is : List Instruction) :
    reach start (i :: is) = reach (start + i.length) is := by
  simp only [reach, List.map_cons, List.sum_cons]
  omega

theorem reach_append (start : Nat) (is js : List Instruction) :
    reach start (is ++ js) = reach (reach start is) js := by
  simp only [reach, List.map_append, List.sum_append]
  omega

theorem le_reach (start : Nat) (is : List Instruction) : start ≤ reach start is := by
  simp [reach]

theorem reach_le_of_isPrefix {start : Nat} {is js : List Instruction} (h : is <+: js) :
    reach start is ≤ reach start js := by
  obtain ⟨ks, rfl⟩ := h
  rw [reach_append]
  exact le_reach _ ks

end Reach

namespace Tiles

theorem stop_eq {start stop : Nat} {is : List Instruction} (h : Tiles start is stop) :
    stop = reach start is := by
  induction is generalizing start with
  | nil => exact (reach_nil start).symm ▸ h.symm
  | cons i is ih =>
    rw [reach_cons, ← h.1]
    exact ih h.2

theorem append_iff {start stop : Nat} {is js : List Instruction} :
    Tiles start (is ++ js) stop ↔
      Tiles start is (reach start is) ∧ Tiles (reach start is) js stop := by
  induction is generalizing start with
  | nil => simp [Tiles]
  | cons i is ih =>
    rw [List.cons_append, Tiles, Tiles, reach_cons, ih, and_assoc]
    refine and_congr_right fun hi => ?_
    rw [Instruction.stop, hi]

theorem of_isPrefix {start stop : Nat} {is js : List Instruction} (h : Tiles start js stop)
    (hp : is <+: js) : Tiles start is (reach start is) := by
  obtain ⟨ks, rfl⟩ := hp
  exact (append_iff.1 h).1

/-- Instructions reach up to where the last of them ends. -/
theorem reach_eq_stop {start stop : Nat} {is : List Instruction} (h : Tiles start is stop) :
    reach start is = (is.getLast?.map (·.stop)).getD start := by
  induction is generalizing start with
  | nil => simp
  | cons i is ih =>
    have hstop : i.stop = start + i.length := by rw [Instruction.stop, h.1]
    rw [reach_cons, ← hstop, ih h.2, List.getLast?_cons]
    cases is.getLast? <;> rfl

theorem address_eq {start stop : Nat} {is : List Instruction} (h : Tiles start is stop) {k : Nat}
    {i : Instruction} (hk : is[k]? = some i) : i.address = reach start (is.take k) := by
  induction is generalizing start k with
  | nil => simp at hk
  | cons j is ih =>
    cases k with
    | zero =>
      obtain rfl : j = i := by simpa using hk
      simpa using h.1
    | succ k =>
      rw [List.take_succ_cons, reach_cons, ← h.1]
      exact ih h.2 (by simpa using hk)

theorem le_address {start stop : Nat} {is : List Instruction} (h : Tiles start is stop)
    {i : Instruction} (hi : i ∈ is) : start ≤ i.address := by
  obtain ⟨k, hk⟩ := List.mem_iff_getElem?.1 hi
  rw [h.address_eq hk]
  exact le_reach start _

theorem reach_take_succ {start stop : Nat} {is : List Instruction} (h : Tiles start is stop)
    {k : Nat} {i : Instruction} (hk : is[k]? = some i) :
    reach start (is.take (k + 1)) = i.stop := by
  rw [List.take_add_one, hk, reach_append, Option.toList_some, reach_cons, reach_nil,
    ← h.address_eq hk, Instruction.stop]

theorem stop_le_reach {start stop : Nat} {is : List Instruction} (h : Tiles start is stop)
    {i : Instruction} (hi : i ∈ is) : i.stop ≤ reach start is := by
  obtain ⟨k, hk⟩ := List.mem_iff_getElem?.1 hi
  rw [← h.reach_take_succ hk]
  exact reach_le_of_isPrefix (List.take_prefix (k + 1) is)

/-- The later one of two instructions in order begins where the earlier one ends, or behind. -/
theorem stop_le_address {start stop : Nat} {is : List Instruction} (h : Tiles start is stop)
    {k l : Nat} {i j : Instruction} (hk : is[k]? = some i) (hl : is[l]? = some j) (hlt : k < l) :
    i.stop ≤ j.address := by
  rw [← h.reach_take_succ hk, h.address_eq hl]
  exact reach_le_of_isPrefix (List.take_prefix_take_left hlt)

theorem range'_eq_flatMap {start stop : Nat} {is : List Instruction} (h : Tiles start is stop) :
    List.range' start (stop - start) = is.flatMap fun i => List.range' i.address i.length := by
  induction is generalizing start with
  | nil =>
    rw [show start = stop from h, Nat.sub_self]
    rfl
  | cons i is ih =>
    have hle := le_reach i.stop is
    rw [← h.2.stop_eq] at hle
    rw [List.flatMap_cons, ← ih h.2, h.1, Instruction.stop, h.1, List.range'_append_1]
    rw [Instruction.stop, h.1] at hle
    congr 1
    omega

theorem exists_contains {start stop offset : Nat} {is : List Instruction} (h : Tiles start is stop)
    (hstart : start ≤ offset) (hstop : offset < stop) :
    ∃ (k : Nat) (i : Instruction), is[k]? = some i ∧ i.contains offset = true := by
  induction is generalizing start with
  | nil =>
    rw [show start = stop from h] at hstart
    omega
  | cons i is ih =>
    by_cases hlt : offset < i.stop
    · refine ⟨0, i, rfl, ?_⟩
      rw [Instruction.contains, Bool.and_eq_true, decide_eq_true_eq, decide_eq_true_eq, h.1]
      exact ⟨hstart, hlt⟩
    · obtain ⟨k, j, hk, hj⟩ := ih h.2 (Nat.le_of_not_lt hlt)
      exact ⟨k + 1, j, by rw [List.getElem?_cons_succ]; exact hk, hj⟩

theorem contains_unique {start stop offset : Nat} {is : List Instruction} (h : Tiles start is stop)
    {k l : Nat} {i j : Instruction} (hk : is[k]? = some i) (hl : is[l]? = some j)
    (hi : i.contains offset = true) (hj : j.contains offset = true) : k = l := by
  simp only [Instruction.contains, Bool.and_eq_true, decide_eq_true_eq] at hi hj
  rcases Nat.lt_trichotomy k l with hlt | heq | hlt
  · have hle := h.stop_le_address hk hl hlt
    omega
  · exact heq
  · have hle := h.stop_le_address hl hk hlt
    omega

end Tiles

namespace Decoding

variable {d : Decoding}

theorem linear_tiles (hd : d.Echoes) (bytes : List UInt8) (address : Nat) :
    Tiles address (d.linear bytes address) (reach address (d.linear bytes address)) := by
  fun_induction d.linear bytes address with
  | case1 bytes address i hi hfits ih =>
    have haddr := hd bytes address i hi
    refine ⟨haddr, ?_⟩
    rw [reach_cons, Instruction.stop, haddr]
    exact ih
  | case2 | case3 => exact (reach_nil _).symm

theorem linear_nil (d : Decoding) (address : Nat) : d.linear [] address = [] := by
  rw [linear]
  split
  · rw [if_neg]
    simp only [List.length_nil]
    omega
  · rfl

/-- A sweep begins with what is decoded in front, if that fits; else nothing is in it. -/
theorem linear_cases (d : Decoding) (bytes : List UInt8) (address : Nat) :
    (∃ i, d bytes address = .ok (some i) ∧ 0 < i.length ∧ i.length ≤ bytes.length ∧
      d.linear bytes address = i :: d.linear (bytes.drop i.length) (address + i.length)) ∨
    d.linear bytes address = [] := by
  fun_cases d.linear bytes address with
  | case1 i hi hfits => exact .inl ⟨i, hi, hfits.1, hfits.2, rfl⟩
  | case2 | case3 => exact .inr rfl

/-- A sweep from where some of its instructions end goes on with those behind them. -/
theorem linear_drop (d : Decoding) (bytes : List UInt8) (address k : Nat) :
    (d.linear bytes address).drop k =
      d.linear (bytes.drop (reach address ((d.linear bytes address).take k) - address))
        (reach address ((d.linear bytes address).take k)) := by
  induction k generalizing bytes address with
  | zero => simp
  | succ k ih =>
    rcases d.linear_cases bytes address with ⟨i, -, -, -, hcons⟩ | hnil
    · have hadd := le_reach (address + i.length)
        ((d.linear (bytes.drop i.length) (address + i.length)).take k)
      rw [hcons, List.drop_succ_cons, List.take_succ_cons, reach_cons, ih, List.drop_drop]
      congr 2
      omega
    · rw [hnil, List.take_nil, reach_nil, Nat.sub_self, List.drop_zero, hnil, List.drop_nil]

/-- The first instructions of a sweep are all that is swept in their own bytes. -/
theorem linear_cut (hd : d.Regular) {bytes : List UInt8} {address : Nat} {is : List Instruction}
    (h : is <+: d.linear bytes address) :
    d.linear (bytes.take (reach address is - address)) address = is := by
  induction is generalizing bytes address with
  | nil => simpa using d.linear_nil address
  | cons i is ih =>
    rcases d.linear_cases bytes address with ⟨j, hj, hpos, hle, hcons⟩ | hnil
    · rw [hcons, List.cons_prefix_cons] at h
      obtain ⟨rfl, h⟩ := h
      have hadd := le_reach (address + i.length) is
      have hlen : reach address (i :: is) - address =
          i.length + (reach (address + i.length) is - (address + i.length)) := by
        rw [reach_cons]
        omega
      -- what is left of the bytes still begins with all of the first instruction
      have htake : (bytes.take (reach address (i :: is) - address)).take i.length =
          bytes.take i.length := by
        rw [List.take_take, hlen, Nat.min_eq_left (Nat.le_add_right _ _)]
      have hroom : i.length ≤ (bytes.take (reach address (i :: is) - address)).length := by
        rw [List.length_take]
        omega
      rw [linear, hd.decode_of_take hj hle htake]
      dsimp only
      rw [if_pos ⟨hpos, hroom⟩, hlen, List.drop_take, Nat.add_sub_cancel_left, ih h]
    · rw [hnil] at h
      cases List.prefix_nil.1 h

theorem reach_linear_le (bytes : List UInt8) (address : Nat) :
    reach address (d.linear bytes address) ≤ address + bytes.length := by
  fun_induction d.linear bytes address with
  | case1 bytes address i hi hfits ih =>
    rw [reach_cons]
    rw [List.length_drop] at ih
    omega
  | case2 | case3 => simp

/-- Each instruction is what is decoded where those before it end. -/
theorem decode_of_linear {bytes : List UInt8} {address k : Nat} {i : Instruction}
    (hk : (d.linear bytes address)[k]? = some i) :
    ∃ n, reach address ((d.linear bytes address).take k) = address + n ∧
      d (bytes.drop n) (address + n) = .ok (some i) ∧
      0 < i.length ∧ i.length ≤ (bytes.drop n).length := by
  fun_induction d.linear bytes address generalizing k with
  | case1 bytes address j hj hfits ih =>
    cases k with
    | zero =>
      obtain rfl : j = i := by simpa using hk
      exact ⟨0, by simp, by simpa using hj, hfits.1, by simpa using hfits.2⟩
    | succ k =>
      obtain ⟨n, hn, hdec, hpos, hlen⟩ := ih (by simpa using hk)
      refine ⟨j.length + n, ?_, ?_, hpos, ?_⟩
      · rw [List.take_succ_cons, reach_cons, hn]
        omega
      · rw [← List.drop_drop, ← Nat.add_assoc]
        exact hdec
      · rwa [← List.drop_drop]
  | case2 | case3 => simp at hk

end Decoding

theorem Zone.linear_drop (z : Zone) (content : Array UInt8) (d : Decoding) (start k : Nat) :
    (z.linear content d start).drop k =
      z.linear content d (reach start ((z.linear content d start).take k)) := by
  rw [Zone.linear, Zone.linear, Decoding.linear_drop, toList_extract_drop (le_reach start _)]

def foldSteps {α β : Type} (f : α → β → ForInStep β) : β → List α → β
  | b, [] => b
  | b, a :: as =>
    match f a b with
    | .done b => b
    | .yield b => foldSteps f b as

namespace Sweep

variable {σ β : Type} {dec : Decoder σ} {d : Decoding} {faults : σ → Nat}

theorem next_of_decode {s : Sweep} {w w' : σ} {r : Except Error (Option Instruction)}
    (hrest : s.rest.isEmpty = false) : dec.decode s.rest s.address w = (r, w') →
    s.next dec w = match r with
      | .ok (some i) =>
        if s.fits i then (some (.instruction i), s.advance i.length, w')
        else (some (.fault { failure := .decode s.address .malformed }), s.exhaust, w')
      | .ok none => (none, s.exhaust, w')
      | .error e => (some (.fault e), s.exhaust, w') := by
  intro hr
  rw [next, hrest, hr]
  rcases r with e | _ | i <;> rfl

theorem next_of_isEmpty {s : Sweep} (hrest : s.rest.isEmpty = true) (w : σ) :
    s.next dec w = (none, s, w) := by
  rw [next, if_pos hrest]

theorem faults_le_of_next (hdec : dec.Follows d faults) {s s' : Sweep} {w w' : σ}
    {item : Option Item} (h : s.next dec w = (item, s', w')) : faults w ≤ faults w' := by
  cases hrest : s.rest.isEmpty with
  | true =>
    rw [next_of_isEmpty hrest] at h
    cases h
    exact Nat.le_refl _
  | false =>
    cases hr : dec.decode s.rest s.address w with
    | mk r w'' =>
      rw [next_of_decode hrest hr] at h
      have hle := hdec.faults_le hr
      rcases r with e | _ | i
      · cases h
        exact hle
      · cases h
        exact hle
      · dsimp only at h
        split at h <;> cases h <;> exact hle

/-- A step in which nothing fails comes upon the first of the list, or the list is empty. -/
theorem next_of_quiet (hdec : dec.Follows d faults) {s s' : Sweep} {w w' : σ}
    {item : Option Item} (h : s.next dec w = (item, s', w')) (hw : faults w' = faults w) :
    (∃ i, item = some (.instruction i) ∧ d.linear s.rest.toList s.address =
        i :: d.linear s'.rest.toList s'.address) ∨
      ((∀ i, item ≠ some (.instruction i)) ∧ d.linear s.rest.toList s.address = []) := by
  cases hrest : s.rest.isEmpty with
  | true =>
    rw [next_of_isEmpty hrest] at h
    cases h
    have hnil : s.rest.toList = [] := by
      rw [← List.length_eq_zero_iff, Code.length_toList]
      simpa [Code.isEmpty] using hrest
    exact .inr ⟨by simp, hnil ▸ d.linear_nil s.address⟩
  | false =>
    cases hr : dec.decode s.rest s.address w with
    | mk r w'' =>
      rw [next_of_decode hrest hr] at h
      -- an error, no instruction, or one that may still be too long
      rcases r with e | _ | i
      · cases h
        have hd := hdec.decode_of_quiet hr hw
        exact .inr ⟨by simp, by rw [Decoding.linear, ← hd]⟩
      · cases h
        have hd := hdec.decode_of_quiet hr hw
        exact .inr ⟨by simp, by rw [Decoding.linear, ← hd]⟩
      · dsimp only at h
        have hfits : s.fits i = true ↔ 0 < i.length ∧ i.length ≤ s.rest.toList.length := by
          simp [fits]
        split at h <;> rename_i hi <;> cases h <;> have hd := hdec.decode_of_quiet hr hw
        · refine .inl ⟨i, rfl, ?_⟩
          rw [Decoding.linear, ← hd]
          dsimp only
          rw [if_pos (hfits.1 hi), advance, Code.toList_drop]
        · refine .inr ⟨by simp, ?_⟩
          rw [Decoding.linear, ← hd]
          dsimp only
          rw [if_neg (mt hfits.2 hi)]

/-- What every step keeps is kept by a fold, whatever the decoder answers. -/
theorem fold_keeps {p : β → Prop} {f : Instruction → β → ForInStep β}
    (hdone : ∀ i b b', p b → f i b = .done b' → p b')
    (hyield : ∀ i b b', p b → f i b = .yield b' → p b') (s : Sweep) {b : β} (hb : p b) (w : σ) :
    p (s.fold dec f b w).1 := by
  fun_induction s.fold dec f b w with
  | case1 | case2 => exact hb
  | case3 s b w i s' w' h b' hf => exact hdone i b b' hb hf
  | case4 s b w i s' w' h b' hf ih => exact ih (hyield i b b' hb hf)

theorem faults_le_of_fold (hdec : dec.Follows d faults) (f : Instruction → β → ForInStep β)
    (s : Sweep) (b : β) (w : σ) : faults w ≤ faults (s.fold dec f b w).2.2 := by
  fun_induction s.fold dec f b w with
  | case1 s b w s' w' h => exact faults_le_of_next hdec h
  | case2 s b w e s' w' h => exact faults_le_of_next hdec h
  | case3 s b w i s' w' h b' hf => exact faults_le_of_next hdec h
  | case4 s b w i s' w' h b' hf ih => exact Nat.le_trans (faults_le_of_next hdec h) ih

/-- A fold in which nothing fails is the fold over the list. -/
theorem fold_of_quiet (hdec : dec.Follows d faults) (f : Instruction → β → ForInStep β)
    (s : Sweep) (b : β) (w : σ) (hw : faults (s.fold dec f b w).2.2 = faults w) :
    (s.fold dec f b w).1 = foldSteps f b (d.linear s.rest.toList s.address) := by
  fun_induction s.fold dec f b w with
  | case1 s b w s' w' h =>
    rcases next_of_quiet hdec h hw with ⟨i, hi, -⟩ | ⟨-, hnil⟩
    · cases hi
    · rw [hnil, foldSteps]
  | case2 s b w e s' w' h =>
    rcases next_of_quiet hdec h hw with ⟨i, hi, -⟩ | ⟨-, hnil⟩
    · cases hi
    · rw [hnil, foldSteps]
  | case3 s b w i s' w' h b' hf =>
    rcases next_of_quiet hdec h hw with ⟨j, hj, hcons⟩ | ⟨hne, -⟩
    · cases hj
      rw [hcons, foldSteps, hf]
    · exact absurd rfl (hne i)
  | case4 s b w i s' w' h b' hf ih =>
    -- neither the step nor the rest of the fold has failed
    have hstep := faults_le_of_next hdec h
    have hrest := faults_le_of_fold hdec f s' b' w'
    rcases next_of_quiet hdec h (by omega) with ⟨j, hj, hcons⟩ | ⟨hne, -⟩
    · cases hj
      rw [hcons, foldSteps, hf]
      exact ih (by omega)
    · exact absurd rfl (hne i)

end Sweep
end Disassembly
