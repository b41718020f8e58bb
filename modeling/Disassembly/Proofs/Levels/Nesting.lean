import Disassembly.Proofs.Levels.Contents

/-! # Levels that nest

The children of a level are inside it, in order, and have none of its own labels. Putting a label in
keeps this at every level of a tree, and so does nesting another level.
-/

namespace Disassembly
namespace Level

def bounds (l : Level) : Nat × Nat :=
  (l.start, l.stop)

/-- The children of the level are inside it one behind the other, and its labels are between them. -/
structure Orderly (l : Level) : Prop where
  labels_mem : ∀ e ∈ l.labels, l.start ≤ e.1 ∧ e.1 < l.stop
  labels_between : ∀ e ∈ l.labels, ∀ c ∈ l.children, ¬ (c.start ≤ e.1 ∧ e.1 < c.stop)
  children_mem : ∀ c ∈ l.children, l.start ≤ c.start ∧ c.start < c.stop ∧ c.stop ≤ l.stop
  children_apart : l.children.Pairwise fun a b => a.stop ≤ b.start

/-- The level is orderly, and so is every level below. -/
inductive Nested : Level → Prop where
  | mk (l : Level) (orderly : l.Orderly) (children : ∀ c ∈ l.children, c.Nested) : l.Nested

theorem Nested.orderly {l : Level} (h : l.Nested) : l.Orderly := by
  cases h
  assumption

theorem Nested.children {l : Level} (h : l.Nested) : ∀ c ∈ l.children, c.Nested := by
  cases h
  assumption

theorem contains_iff {line : Nat} {l : Level} :
    l.contains line = true ↔ l.start ≤ line ∧ line < l.stop := by
  rw [contains, Bool.and_eq_true, decide_eq_true_eq, decide_eq_true_eq]

theorem empty_nested (start stop : Nat) : (empty start stop).Nested :=
  .mk _ ⟨nofun, nofun, nofun, List.Pairwise.nil⟩ nofun

theorem Orderly.child_unique {l : Level} (h : l.Orderly) {line n n' : Nat} {c c' : Level}
    (hc : l.children[n]? = some c) (hc' : l.children[n']? = some c') (hline : c.contains line = true)
    (hline' : c'.contains line = true) : n = n' := by
  have hapart : ∀ {i j : Nat} {a b : Level}, l.children[i]? = some a → l.children[j]? = some b →
      i < j → a.stop ≤ b.start := by
    intro i j a b ha hb hlt
    obtain ⟨hi, rfl⟩ := List.getElem?_eq_some_iff.1 ha
    obtain ⟨hj, rfl⟩ := List.getElem?_eq_some_iff.1 hb
    exact List.pairwise_iff_getElem.1 h.children_apart i j hi hj hlt
  rw [contains_iff] at hline hline'
  rcases Nat.lt_trichotomy n n' with hlt | heq | hlt
  · have hle := hapart hc hc' hlt
    omega
  · exact heq
  · have hle := hapart hc' hc hlt
    omega

theorem Orderly.of_bounds {l : Level} (h : l.Orderly) {children : List Level}
    (hbounds : children.map bounds = l.children.map bounds) :
    ({ l with children } : Level).Orderly := by
  have hsame : ∀ c ∈ children, ∃ c' ∈ l.children, c'.start = c.start ∧ c'.stop = c.stop := by
    intro c hc
    have hmem := List.mem_map_of_mem (f := bounds) hc
    rw [hbounds] at hmem
    obtain ⟨c', hc', heq⟩ := List.mem_map.1 hmem
    exact ⟨c', hc', congrArg Prod.fst heq, congrArg Prod.snd heq⟩
  refine ⟨h.labels_mem, fun e he c hc => ?_, fun c hc => ?_, ?_⟩
  · obtain ⟨c', hc', hstart, hstop⟩ := hsame c hc
    rw [← hstart, ← hstop]
    exact h.labels_between e he c' hc'
  · obtain ⟨c', hc', hstart, hstop⟩ := hsame c hc
    rw [← hstart, ← hstop]
    exact h.children_mem c' hc'
  · have hapart : (l.children.map bounds).Pairwise fun a b => a.2 ≤ b.1 :=
      List.pairwise_map.2 h.children_apart
    rw [← hbounds] at hapart
    exact List.pairwise_map.1 hapart

section Shift

variable {line : Nat}

@[simp] theorem shift_start (line : Nat) (l : Level) :
    (l.shift line).start = shiftBound line l.start := by
  cases l
  rfl

@[simp] theorem shift_stop (line : Nat) (l : Level) :
    (l.shift line).stop = shiftBound line l.stop := by
  cases l
  rfl

@[simp] theorem shift_labels (line : Nat) (l : Level) :
    (l.shift line).labels = shiftLabels line l.labels := by
  cases l
  rfl

@[simp] theorem shift_children (line : Nat) (l : Level) :
    (l.shift line).children = l.children.map (shift line) := by
  cases l
  exact shiftAll_eq line _

theorem shiftBound_le_shiftKey {bound k : Nat} :
    shiftBound line bound ≤ shiftKey line k ↔ bound ≤ k := by
  unfold shiftBound shiftKey
  split <;> split <;> omega

theorem shiftKey_lt_shiftBound {bound k : Nat} :
    shiftKey line k < shiftBound line bound ↔ k < bound := by
  unfold shiftBound shiftKey
  split <;> split <;> omega

theorem shiftBound_le_shiftBound {a b : Nat} (h : a ≤ b) : shiftBound line a ≤ shiftBound line b := by
  unfold shiftBound
  split <;> split <;> omega

theorem shiftBound_lt_shiftBound {a b : Nat} (h : a < b) : shiftBound line a < shiftBound line b := by
  unfold shiftBound
  split <;> split <;> omega

/-- The line where room is made is in the same levels as before. -/
theorem mem_shiftBound {start stop : Nat} :
    shiftBound line start ≤ line ∧ line < shiftBound line stop ↔ start ≤ line ∧ line < stop := by
  unfold shiftBound
  split <;> split <;> omega

theorem Orderly.shift {l : Level} (h : l.Orderly) : (l.shift line).Orderly := by
  have hlabel : ∀ e ∈ (l.shift line).labels, ∃ e' ∈ l.labels, e.1 = shiftKey line e'.1 := by
    intro e he
    rw [shift_labels, shiftLabels_eq] at he
    obtain ⟨e', he', rfl⟩ := List.mem_map.1 he
    exact ⟨e', he', rfl⟩
  constructor
  · intro e he
    obtain ⟨e', he', hkey⟩ := hlabel e he
    rw [hkey, shift_start, shift_stop, shiftBound_le_shiftKey, shiftKey_lt_shiftBound]
    exact h.labels_mem e' he'
  · intro e he c hc
    obtain ⟨e', he', hkey⟩ := hlabel e he
    rw [shift_children] at hc
    obtain ⟨c', hc', rfl⟩ := List.mem_map.1 hc
    rw [hkey, shift_start, shift_stop, shiftBound_le_shiftKey, shiftKey_lt_shiftBound]
    exact h.labels_between e' he' c' hc'
  · intro c hc
    rw [shift_children] at hc
    obtain ⟨c', hc', rfl⟩ := List.mem_map.1 hc
    obtain ⟨hstart, hlt, hstop⟩ := h.children_mem c' hc'
    simp only [shift_start, shift_stop]
    exact ⟨shiftBound_le_shiftBound hstart, shiftBound_lt_shiftBound hlt,
      shiftBound_le_shiftBound hstop⟩
  · rw [shift_children, List.pairwise_map]
    refine h.children_apart.imp fun hab => ?_
    rw [shift_stop, shift_start]
    exact shiftBound_le_shiftBound hab

theorem Nested.shift {l : Level} (h : l.Nested) : (l.shift line).Nested := by
  induction h with
  | mk l orderly children ih =>
    refine .mk _ orderly.shift fun c hc => ?_
    rw [shift_children] at hc
    obtain ⟨c', hc', rfl⟩ := List.mem_map.1 hc
    exact ih c' hc'

end Shift

section Insert

variable {line : Nat} {label : Label}

theorem insertIn_eq_none {ls : List Level} (h : insertIn line label ls = none) :
    ∀ l ∈ ls, l.contains line = false := by
  induction ls with
  | nil => nofun
  | cons l ls ih =>
    rw [insertIn] at h
    split at h
    · cases h
    · rename_i hl
      intro l' hl'
      rcases List.mem_cons.1 hl' with rfl | hl'
      · exact Bool.eq_false_iff.2 hl
      · exact ih (Option.map_eq_none_iff.1 h) l' hl'

theorem insertIn_eq_some {ls ls' : List Level} (h : insertIn line label ls = some ls') :
    ∃ before c behind, ls = before ++ c :: behind ∧ c.contains line = true ∧
      ls' = before.map (shift line) ++ c.insert line label :: behind.map (shift line) := by
  induction ls generalizing ls' with
  | nil => cases h
  | cons l ls ih =>
    rw [insertIn] at h
    split at h
    · rename_i hl
      cases h
      exact ⟨[], l, ls, rfl, hl, by rw [shiftAll_eq]; rfl⟩
    · obtain ⟨rest, hrest, rfl⟩ := Option.map_eq_some_iff.1 h
      obtain ⟨before, c, behind, rfl, hc, rfl⟩ := ih hrest
      exact ⟨l :: before, c, behind, rfl, hc, rfl⟩

theorem insert_of_insertIn {l : Level} {children : List Level}
    (h : insertIn line label l.children = some children) :
    l.insert line label = { l.shift line with children } := by
  obtain ⟨start, stop, labels, ls⟩ := l
  rw [insert, h]
  rfl

theorem insert_of_insertIn_eq_none {l : Level} (h : insertIn line label l.children = none) :
    l.insert line label =
      { l.shift line with labels := (shiftLabels line l.labels).insert line label } := by
  obtain ⟨start, stop, labels, ls⟩ := l
  rw [insert, h]
  rfl

theorem insert_bounds (l : Level) : (l.insert line label).bounds = (l.shift line).bounds := by
  cases h : insertIn line label l.children with
  | some children => rw [insert_of_insertIn h]; rfl
  | none => rw [insert_of_insertIn_eq_none h]; rfl

theorem insert_stop {l : Level} (h : l.contains line = true) :
    (l.insert line label).stop = l.stop + 1 := by
  have hstop : (l.insert line label).stop = shiftBound line l.stop :=
    (congrArg Prod.snd (insert_bounds l)).trans (shift_stop line l)
  rw [hstop, shiftBound, if_pos (contains_iff.1 h).2]

theorem mk_eq_of_stop_eq {l : Level} {stop : Nat} (h : l.stop = stop) :
    ⟨l.start, stop, l.labels, l.children⟩ = l := by
  subst h
  cases l
  rfl

/-- A label that no child has goes on the level itself. -/
theorem Orderly.insert_label {l : Level} (h : l.Orderly) (hstart : l.start ≤ line)
    (hstop : line ≤ l.stop) (hfree : ∀ c ∈ l.children, c.contains line = false) :
    ({ l.shift line with
        stop := l.stop + 1
        labels := (shiftLabels line l.labels).insert line label } : Level).Orderly := by
  have hshift : (l.shift line).Orderly := h.shift
  have hbelow : (l.shift line).stop ≤ l.stop + 1 := by
    rw [shift_stop, shiftBound]
    split <;> omega
  have hlabel : ∀ e ∈ (shiftLabels line l.labels).insert line label,
      e.1 = line ∨ e ∈ (l.shift line).labels := by
    intro e he
    have hperm := NatMap.insert_perm (@ne_of_mem_shiftLabels line l.labels) label
    rcases List.mem_cons.1 (hperm.mem_iff.1 he) with rfl | he
    · exact .inl rfl
    · exact .inr (by rwa [shift_labels])
  refine ⟨fun e he => ?_, fun e he c hc => ?_, fun c hc => ?_, hshift.children_apart⟩
  · rcases hlabel e he with hline | he
    · have hbound : shiftBound line l.start ≤ line := by
        rw [shiftBound, if_neg (by omega)]
        exact hstart
      rw [hline]
      exact ⟨by rwa [shift_start], Nat.lt_succ_of_le hstop⟩
    · have hmem := hshift.labels_mem e he
      exact ⟨hmem.1, Nat.lt_of_lt_of_le hmem.2 hbelow⟩
  · rcases hlabel e he with hline | he
    · rw [shift_children] at hc
      obtain ⟨c', hc', rfl⟩ := List.mem_map.1 hc
      rw [hline, shift_start, shift_stop, mem_shiftBound, ← contains_iff, hfree c' hc']
      exact Bool.false_ne_true
    · exact hshift.labels_between e he c hc
  · have hmem := hshift.children_mem c hc
    exact ⟨hmem.1, hmem.2.1, Nat.le_trans hmem.2.2 hbelow⟩

/-- Putting a label on a line of a level, or on the one behind its last, keeps levels nested. -/
theorem Nested.insert {l : Level} (h : l.Nested) (hstart : l.start ≤ line) (hstop : line ≤ l.stop) :
    ({ l.insert line label with stop := l.stop + 1 } : Level).Nested := by
  induction h with
  | mk l orderly children ih =>
    cases hin : insertIn line label l.children with
    | some nested =>
      obtain ⟨before, c, behind, hsplit, hc, rfl⟩ := insertIn_eq_some hin
      have hmem : c ∈ l.children := by
        rw [hsplit]
        exact List.mem_append_right before List.mem_cons_self
      have hcontains := contains_iff.1 hc
      have hgrown : (l.shift line).stop = l.stop + 1 := by
        have hle := (orderly.children_mem c hmem).2.2
        rw [shift_stop, shiftBound, if_pos (by omega)]
      -- with respect to bounds the child has been shifted like the others
      rw [insert_of_insertIn hin, ← hgrown]
      refine .mk _ (orderly.shift.of_bounds ?_) fun c' hc' => ?_
      · rw [shift_children, hsplit]
        simp only [List.map_append, List.map_cons, insert_bounds]
      · rcases List.mem_append.1 hc' with hc' | hc'
        · obtain ⟨b, hb, rfl⟩ := List.mem_map.1 hc'
          exact (children b (hsplit ▸ List.mem_append_left _ hb)).shift
        · rcases List.mem_cons.1 hc' with rfl | hc'
          · have hnested := ih c hmem hcontains.1 (Nat.le_of_lt hcontains.2)
            rw [← mk_eq_of_stop_eq (@insert_stop line label c hc)]
            exact hnested
          · obtain ⟨b, hb, rfl⟩ := List.mem_map.1 hc'
            exact (children b (hsplit ▸ List.mem_append_right before
              (List.mem_cons_of_mem c hb))).shift
    | none =>
      rw [insert_of_insertIn_eq_none hin]
      refine .mk _ (orderly.insert_label hstart hstop (insertIn_eq_none hin)) fun c hc => ?_
      rw [show ∀ labels stop, ({ l.shift line with labels, stop } : Level).children
        = l.children.map (Level.shift line) from fun _ _ => shift_children line l] at hc
      obtain ⟨c', hc', rfl⟩ := List.mem_map.1 hc
      exact (children c' hc').shift

end Insert

section Nest

variable {start stop : Nat}

theorem spans_iff {l : Level} : l.spans start stop = true ↔ l.start ≤ start ∧ stop ≤ l.stop := by
  rw [spans, Bool.and_eq_true, decide_eq_true_eq, decide_eq_true_eq]

theorem isWithin_iff {l : Level} :
    l.isWithin start stop = true ↔ start ≤ l.start ∧ l.stop ≤ stop := by
  rw [isWithin, Bool.and_eq_true, decide_eq_true_eq, decide_eq_true_eq]

theorem isApart_iff {l : Level} :
    l.isApart start stop = true ↔ l.stop ≤ start ∨ stop ≤ l.start := by
  rw [isApart, Bool.or_eq_true, decide_eq_true_eq, decide_eq_true_eq]

theorem nestIn_eq_some {ls ls' : List Level} (h : nestIn? start stop ls = some (some ls')) :
    ∃ before c behind c', ls = before ++ c :: behind ∧ c.spans start stop = true ∧
      c.nest? start stop false = some c' ∧ ls' = before ++ c' :: behind := by
  induction ls generalizing ls' with
  | nil => cases h
  | cons l ls ih =>
    rw [nestIn?] at h
    split at h
    · rename_i hl
      obtain ⟨c', hc', rfl⟩ := Option.map_eq_some_iff.1 (Option.some.inj h)
      exact ⟨[], l, ls, c', rfl, hl, hc', rfl⟩
    · obtain ⟨rest, hrest, hls⟩ := Option.map_eq_some_iff.1 h
      obtain ⟨ls'', rfl, rfl⟩ := Option.map_eq_some_iff.1 hls
      obtain ⟨before, c, behind, c', rfl, hc, hnest, rfl⟩ := ih hrest
      exact ⟨l :: before, c, behind, c', rfl, hc, hnest, rfl⟩

theorem le_start_of_mem_dropWhile {ls : List Level} (hapart : ls.Pairwise fun a b => a.stop ≤ b.start)
    (hlt : ∀ c ∈ ls, c.start < c.stop) :
    ∀ c ∈ ls.dropWhile (·.start < start), start ≤ c.start := by
  induction ls with
  | nil => nofun
  | cons l ls ih =>
    obtain ⟨hl, hls⟩ := List.pairwise_cons.1 hapart
    rw [List.dropWhile_cons]
    split
    · exact ih hls fun c hc => hlt c (List.mem_cons_of_mem l hc)
    · rename_i hstart
      have hle : start ≤ l.start := Nat.le_of_not_lt fun hlt => hstart (decide_eq_true hlt)
      intro c hc
      rcases List.mem_cons.1 hc with rfl | hc
      · exact hle
      · have hbehind := hl c hc
        have hlen := hlt l List.mem_cons_self
        omega

def outside (start stop : Nat) (l : Level) : List Level :=
  l.children.filter (not ∘ (·.isWithin start stop))

def nestling (start stop : Nat) (l : Level) : Level where
  start := start
  stop := stop
  labels := l.labels.filter fun e => decide (start ≤ e.1) && decide (e.1 < stop)
  children := l.children.filter (·.isWithin start stop)

theorem wrap_eq (l : Level) :
    wrap start stop l = { l with
      labels := l.labels.filter (not ∘ fun e => decide (start ≤ e.1) && decide (e.1 < stop))
      children := (l.outside start stop).takeWhile (·.start < start) ++
        l.nestling start stop :: (l.outside start stop).dropWhile (·.start < start) } := by
  simp only [wrap, List.partition_eq_filter_filter]
  rfl

theorem nestling_orderly {l : Level} (h : l.Orderly) : (l.nestling start stop).Orderly := by
  refine ⟨fun e he => ?_, fun e he c hc => ?_, fun c hc => ?_, h.children_apart.filter _⟩
  · have hmem := (List.mem_filter.1 he).2
    rwa [Bool.and_eq_true, decide_eq_true_eq, decide_eq_true_eq] at hmem
  · exact h.labels_between e (List.mem_filter.1 he).1 c (List.mem_filter.1 hc).1
  · obtain ⟨hmem, hwithin⟩ := List.mem_filter.1 hc
    have hbounds := isWithin_iff.1 hwithin
    exact ⟨hbounds.1, (h.children_mem c hmem).2.1, hbounds.2⟩

/-- Each child is inside of a range or apart from it. -/
def Clears (start stop : Nat) (l : Level) : Prop :=
  ∀ c ∈ l.children, c.isWithin start stop = true ∨ c.isApart start stop = true

/-- The children outside of a range are before it or behind it. -/
theorem Clears.apart {l c : Level} (h : l.Clears start stop) (hc : c ∈ l.outside start stop) :
    c ∈ l.children ∧ (c.stop ≤ start ∨ stop ≤ c.start) := by
  obtain ⟨hmem, hnot⟩ := List.mem_filter.1 hc
  refine ⟨hmem, isApart_iff.1 ((h c hmem).resolve_left fun hwithin => ?_)⟩
  rw [Function.comp_apply, hwithin] at hnot
  cases hnot

theorem Clears.before {l c : Level} (h : l.Clears start stop) (hlt : start < stop)
    (hc : c ∈ (l.outside start stop).takeWhile (·.start < start)) :
    c ∈ l.children ∧ c.stop ≤ start := by
  have hmem := (List.takeWhile_sublist _).subset hc
  have hstart : c.start < start := of_decide_eq_true (List.all_eq_true.1 List.all_takeWhile c hc)
  obtain ⟨hchild, hapart⟩ := h.apart hmem
  exact ⟨hchild, by omega⟩

theorem Clears.behind {l c : Level} (h : l.Clears start stop) (hl : l.Orderly)
    (hc : c ∈ (l.outside start stop).dropWhile (·.start < start)) :
    c ∈ l.children ∧ stop ≤ c.start := by
  have hmem := (List.dropWhile_sublist _).subset hc
  have hstart := le_start_of_mem_dropWhile (hl.children_apart.filter _)
    (fun c hc => (hl.children_mem c (h.apart hc).1).2.1) c hc
  obtain ⟨hchild, hapart⟩ := h.apart hmem
  have hlen := (hl.children_mem c hchild).2.1
  exact ⟨hchild, by omega⟩

/-- A level that is put around what is inside of a range keeps the order. -/
theorem wrap_orderly {l : Level} (h : l.Orderly) (hlt : start < stop)
    (hspans : l.spans start stop = true) (hclears : l.Clears start stop) :
    (wrap start stop l).Orderly := by
  have hmem : ∀ c ∈ (l.outside start stop).takeWhile (·.start < start) ++
      l.nestling start stop :: (l.outside start stop).dropWhile (·.start < start),
      c = l.nestling start stop ∨ c ∈ l.children := by
    intro c hc
    rcases List.mem_append.1 hc with hc | hc
    · exact .inr (hclears.before hlt hc).1
    · rcases List.mem_cons.1 hc with rfl | hc
      · exact .inl rfl
      · exact .inr (hclears.behind h hc).1
  rw [wrap_eq]
  refine ⟨fun e he => h.labels_mem e (List.mem_filter.1 he).1, fun e he c hc => ?_, fun c hc => ?_,
    ?_⟩
  · obtain ⟨hlabel, hnot⟩ := List.mem_filter.1 he
    rcases hmem c hc with rfl | hc
    · rintro ⟨hstart, hstop⟩
      change start ≤ e.1 at hstart
      change e.1 < stop at hstop
      rw [Function.comp_apply, decide_eq_true hstart, decide_eq_true hstop] at hnot
      cases hnot
    · exact h.labels_between e hlabel c hc
  · rcases hmem c hc with rfl | hc
    · have hbounds := spans_iff.1 hspans
      exact ⟨hbounds.1, hlt, hbounds.2⟩
    · exact h.children_mem c hc
  · have houtside_apart := h.children_apart.filter (not ∘ (·.isWithin start stop))
    rw [List.pairwise_append, List.pairwise_cons]
    refine ⟨houtside_apart.sublist (List.takeWhile_sublist _), ⟨fun c hc => (hclears.behind h hc).2,
      houtside_apart.sublist (List.dropWhile_sublist _)⟩, fun a ha b hb => ?_⟩
    have hstop := (hclears.before hlt ha).2
    rcases List.mem_cons.1 hb with rfl | hb
    · exact hstop
    · exact Nat.le_trans hstop (Nat.le_trans (Nat.le_of_lt hlt) (hclears.behind h hb).2)

/-- Nesting another level keeps levels nested, and the outermost one as long as it was. -/
theorem Nested.nest {l : Level} (h : l.Nested) (hlt : start < stop)
    (hspans : l.spans start stop = true) {isRoot : Bool} {l' : Level}
    (hnest : l.nest? start stop isRoot = some l') : l'.Nested ∧ l'.bounds = l.bounds := by
  induction h generalizing isRoot l' with
  | mk l orderly children ih =>
    obtain ⟨start', stop', labels, ls⟩ := l
    rw [nest?] at hnest
    cases hin : nestIn? start stop ls with
    | some nested =>
      rw [hin] at hnest
      obtain ⟨ls', rfl, rfl⟩ := Option.map_eq_some_iff.1 hnest
      obtain ⟨before, c, behind, c', rfl, hc, hcnest, rfl⟩ := nestIn_eq_some hin
      obtain ⟨hnested, hbounds⟩ := ih c (List.mem_append_right _ List.mem_cons_self) hc hcnest
      -- the child keeps its bounds, so the level above it stays orderly
      refine ⟨.mk _ (orderly.of_bounds ?_) fun d hd => ?_, rfl⟩
      · simp only [List.map_append, List.map_cons, hbounds]
      · rcases List.mem_append.1 hd with hd | hd
        · exact children d (List.mem_append_left _ hd)
        · rcases List.mem_cons.1 hd with rfl | hd
          · exact hnested
          · exact children d (List.mem_append_right _ (List.mem_cons_of_mem _ hd))
    | none =>
      rw [hin] at hnest
      dsimp only at hnest
      split at hnest
      · rename_i hnests
        cases hnest
        have hclears : Clears start stop { start := start', stop := stop', labels, children := ls } :=
          fun c hc => Bool.or_eq_true_iff.1 (List.all_eq_true.1 hnests.1 c hc)
        refine ⟨.mk _ (wrap_orderly orderly hlt hspans hclears) fun c hc => ?_, rfl⟩
        rw [wrap_eq] at hc
        rcases List.mem_append.1 hc with hc | hc
        · exact children c (List.mem_filter.1 ((List.takeWhile_sublist _).subset hc)).1
        · rcases List.mem_cons.1 hc with rfl | hc
          · exact .mk _ (nestling_orderly orderly)
              fun d hd => children d (List.mem_filter.1 hd).1
          · exact children c (List.mem_filter.1 ((List.dropWhile_sublist _).subset hc)).1
      · cases hnest

end Nest

end Level
end Disassembly
