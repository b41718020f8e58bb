import Disassembly.Proofs.Levels.Contents
import Disassembly.Levels.Resolve

/-! # Lines laid out flat

Where the labels are says what is on each line: the label if there is one, or else an instruction,
numbered by the instruction lines before it. Putting a label in shifts the labels behind it, and on
the flat list of lines this is nothing but an insertion.
-/

namespace Disassembly

/-- No two labels are on one line. -/
def NatMap.Distinct {α : Type} (m : NatMap α) : Prop :=
  (m.map (·.1)).Nodup

namespace NatMap

variable {α : Type} {m m' : NatMap α}

theorem get?_eq_some_iff (h : m.Distinct) {key : Nat} {v : α} :
    get? key m = some v ↔ (key, v) ∈ m := by
  refine ⟨mem_of_get?, fun hmem => ?_⟩
  induction m with
  | nil => cases hmem
  | cons e m ih =>
    obtain ⟨k, u⟩ := e
    obtain ⟨hk, hm⟩ := List.nodup_cons.1 h
    rw [get?]
    rcases List.mem_cons.1 hmem with heq | hmem
    · cases heq
      rw [if_pos rfl]
    · have hkey : key ∈ m.map fun e => e.1 := List.mem_map.2 ⟨(key, v), hmem, rfl⟩
      have hne : k ≠ key := fun heq => hk (heq ▸ hkey)
      rw [if_neg hne, ih hm hmem]

theorem Distinct.perm (h : m.Distinct) (hperm : m.Perm m') : m'.Distinct :=
  (hperm.map fun e : Nat × α => e.1).nodup_iff.1 h

theorem get?_perm (h : m.Distinct) (hperm : m.Perm m') (key : Nat) : get? key m' = get? key m := by
  have h' := h.perm hperm
  apply Option.ext
  intro v
  rw [get?_eq_some_iff h', get?_eq_some_iff h, hperm.mem_iff]

/-- What is found among renamed keys, if only one of them becomes the key. -/
theorem get?_map_key {f : Nat → Nat} {key key' : Nat} (h : ∀ k, f k = key' ↔ k = key)
    (m : NatMap α) : get? key' (m.map fun e => (f e.1, e.2)) = get? key m := by
  induction m with
  | nil => rfl
  | cons e m ih =>
    obtain ⟨k, v⟩ := e
    simp only [List.map_cons, get?, ih, h]

end NatMap

section Below

variable {α : Type} {m : NatMap α}

theorem NatMap.Distinct.below_succ (h : m.Distinct) (line : Nat) :
    m.countP (·.1 < line + 1) = m.countP (·.1 < line) + if m.contains line then 1 else 0 := by
  induction m with
  | nil => rfl
  | cons e m ih =>
    obtain ⟨k, v⟩ := e
    obtain ⟨hk, hm⟩ := List.nodup_cons.1 h
    rw [List.countP_cons, List.countP_cons, ih hm]
    by_cases heq : k = line
    · subst heq
      have hnone : NatMap.get? k m = none := NatMap.get?_eq_none fun e he hline =>
        hk (List.mem_map.2 ⟨e, he, hline⟩)
      simp [NatMap.contains, NatMap.get?, hnone]
    · have hlt : decide (k < line + 1) = decide (k < line) := by
        rw [decide_eq_decide]
        omega
      simp only [NatMap.contains, NatMap.get?, if_neg heq, hlt]
      exact Nat.add_right_comm _ _ _

theorem NatMap.Distinct.below_le_below (h : m.Distinct) {start line : Nat} (hle : start ≤ line) :
    m.countP (·.1 < start) ≤ m.countP (·.1 < line) ∧
      m.countP (·.1 < line) ≤ m.countP (·.1 < start) + (line - start) := by
  induction hle with
  | refl => exact ⟨Nat.le_refl _, Nat.le_add_right _ _⟩
  | @step line hle ih =>
    have hle : start ≤ line := hle
    have hsucc := h.below_succ line
    rw [Nat.succ_eq_add_one]
    split at hsucc <;> omega

theorem NatMap.Distinct.below_le (h : m.Distinct) (line : Nat) : m.countP (·.1 < line) ≤ line := by
  have hzero : m.countP (·.1 < 0) = 0 := by simp
  have hle := (h.below_le_below (Nat.zero_le line)).2
  omega

theorem NatMap.below_add_between (m : NatMap α) {start line : Nat} (h : start ≤ line + 1) :
    m.countP (·.1 < start) + m.countP (fun e => start ≤ e.1 && e.1 ≤ line) =
      m.countP (·.1 < line + 1) := by
  induction m with
  | nil => rfl
  | cons e m ih =>
    rw [List.countP_cons, List.countP_cons, List.countP_cons, ← ih]
    simp only [Bool.and_eq_true, decide_eq_true_eq]
    split <;> split <;> split <;> omega

end Below

def entryOf (labels : NatMap Label) (line : Nat) : Resolved :=
  match labels.get? line with
  | some label => .label label
  | none => .instruction (line - labels.countP (·.1 < line))

/-- What is on each of the first `size` lines, if the labels are these. -/
def layout (labels : NatMap Label) (size : Nat) : List Resolved :=
  (List.range size).map (entryOf labels)

theorem entryOf_perm {labels others : NatMap Label} (h : labels.Distinct)
    (hperm : labels.Perm others) (line : Nat) : entryOf others line = entryOf labels line := by
  rw [entryOf, entryOf, NatMap.get?_perm h hperm, hperm.countP_eq]

theorem layout_perm {labels others : NatMap Label} (h : labels.Distinct)
    (hperm : labels.Perm others) (size : Nat) : layout others size = layout labels size :=
  List.map_congr_left fun line _ => entryOf_perm h hperm line

theorem layout_nil (size : Nat) : layout [] size = (List.range size).map Resolved.instruction :=
  rfl

@[simp] theorem length_layout (labels : NatMap Label) (size : Nat) :
    (layout labels size).length = size := by
  rw [layout, List.length_map, List.length_range]

theorem getElem?_layout {labels : NatMap Label} {size line : Nat} (h : line < size) :
    (layout labels size)[line]? = some (entryOf labels line) := by
  rw [layout, List.getElem?_map, List.getElem?_range h, Option.map_some]

section Insert

variable {line k : Nat} (label : Label) (labels : NatMap Label)

theorem entryOf_insert_of_lt (h : k < line) :
    entryOf ((line, label) :: Level.shiftLabels line labels) k = entryOf labels k := by
  have hkey : ∀ j, Level.shiftKey line j = k ↔ j = k := by
    intro j
    unfold Level.shiftKey
    split <;> omega
  have hcount : ∀ j, (decide (Level.shiftKey line j < k)) = decide (j < k) := by
    intro j
    unfold Level.shiftKey
    split
    · rw [decide_eq_decide]
      omega
    · rfl
  have hline : ¬ line < k := Nat.lt_asymm h
  rw [entryOf, entryOf, Level.shiftLabels_eq, NatMap.get?, if_neg (Nat.ne_of_gt h),
    NatMap.get?_map_key hkey, List.countP_cons_of_neg (by simpa using hline), List.countP_map]
  simp only [Function.comp_def, hcount]

theorem entryOf_insert_self :
    entryOf ((line, label) :: Level.shiftLabels line labels) line = .label label := by
  rw [entryOf, NatMap.get?, if_pos rfl]

theorem entryOf_insert_of_gt (h : line < k) :
    entryOf ((line, label) :: Level.shiftLabels line labels) k = entryOf labels (k - 1) := by
  have hkey : ∀ j, Level.shiftKey line j = k ↔ j = k - 1 := by
    intro j
    unfold Level.shiftKey
    split <;> omega
  have hcount : ∀ j, (decide (Level.shiftKey line j < k)) = decide (j < k - 1) := by
    intro j
    unfold Level.shiftKey
    split <;> rw [decide_eq_decide] <;> omega
  rw [entryOf, entryOf, Level.shiftLabels_eq, NatMap.get?, if_neg (Nat.ne_of_lt h),
    NatMap.get?_map_key hkey, List.countP_cons_of_pos (by simpa using h), List.countP_map]
  simp only [Function.comp_def, hcount]
  -- the label in front of the instruction is one more line and one more label
  rw [Nat.add_comm, Nat.sub_add_eq]

/-- A label that is put in is inserted into the list of lines. -/
theorem layout_insert {size : Nat} (h : line ≤ size) :
    layout ((line, label) :: Level.shiftLabels line labels) (size + 1) =
      (layout labels size).insertIdx line (.label label) := by
  apply List.ext_getElem?
  intro k
  by_cases hk : k < size + 1
  · rw [getElem?_layout hk, List.getElem?_insertIdx]
    rcases Nat.lt_trichotomy k line with hlt | rfl | hgt
    · rw [if_pos hlt, getElem?_layout (by omega), entryOf_insert_of_lt label labels hlt]
    · rw [if_neg (Nat.lt_irrefl k), if_pos rfl, if_pos (by rwa [length_layout]),
        entryOf_insert_self]
    · rw [if_neg (by omega), if_neg (by omega), getElem?_layout (by omega),
        entryOf_insert_of_gt label labels hgt]
  · rw [List.getElem?_eq_none (by rw [length_layout]; omega), List.getElem?_eq_none]
    rw [List.length_insertIdx_of_le_length (by rwa [length_layout]), length_layout]
    omega

end Insert

/-- Labels that are shifted stay on different lines, and leave room for another one. -/
theorem NatMap.Distinct.insert_shift {labels : NatMap Label} (h : labels.Distinct) (line : Nat)
    (label : Label) : NatMap.Distinct ((line, label) :: Level.shiftLabels line labels) := by
  refine List.nodup_cons.2 ⟨fun hmem => ?_, ?_⟩
  · obtain ⟨e, he, heq⟩ := List.mem_map.1 hmem
    exact Level.ne_of_mem_shiftLabels e he heq
  · rw [Level.shiftLabels_eq, List.map_map]
    have hinj : ∀ a b, a ≠ b → Level.shiftKey line a ≠ Level.shiftKey line b := by
      intro a b hne
      unfold Level.shiftKey
      split <;> split <;> omega
    have hnodup := List.Pairwise.map (Level.shiftKey line) hinj h
    rwa [List.map_map] at hnodup

def Resolved.code? : Resolved → Option Nat
  | .label _ => none
  | .instruction line => some line

/-- Inserting a label leaves the instructions in order. -/
theorem filterMap_code?_insertIdx (label : Label) (entries : List Resolved) (line : Nat) :
    (entries.insertIdx line (.label label)).filterMap Resolved.code? =
      entries.filterMap Resolved.code? := by
  induction entries generalizing line with
  | nil => cases line <;> rfl
  | cons e entries ih =>
    cases line with
    | zero => rfl
    | succ line => rw [List.insertIdx_succ_cons, List.filterMap_cons, ih, ← List.filterMap_cons]

/-- If the instructions are numbered in order, the number of one is how many are before it. -/
theorem eq_length_of_filterMap_code? {entries : List Resolved} {n line r : Nat}
    (h : entries.filterMap Resolved.code? = List.range n)
    (hline : entries[line]? = some (.instruction r)) :
    r = ((entries.take line).filterMap Resolved.code?).length := by
  obtain ⟨hlt, hget⟩ := List.getElem?_eq_some_iff.1 hline
  have hsplit : entries = entries.take line ++ .instruction r :: entries.drop (line + 1) := by
    rw [← hget, List.getElem_cons_drop, List.take_append_drop]
  have hcode : (Resolved.instruction r).code? = some r := rfl
  rw [hsplit, List.filterMap_append, List.filterMap_cons_some hcode] at h
  have hat := congrArg (·[((entries.take line).filterMap Resolved.code?).length]?) h
  rw [List.getElem?_append_right (Nat.le_refl _), Nat.sub_self, List.getElem?_cons_zero] at hat
  obtain ⟨hr, heq⟩ := List.getElem?_eq_some_iff.1 hat.symm
  rw [List.getElem_range] at heq
  exact heq.symm

end Disassembly
