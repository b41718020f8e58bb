import Disassembly.Levels.Resolve
import Disassembly.Proofs.Levels.Nesting

/-! # The innermost level of a line

Among nested levels the innermost one that has a line has all labels of its own lines, in it or
below, and the label of that line, if there is one, is its own. The path says which level it is.
-/

namespace Disassembly
namespace Level

variable {line : Nat}

theorem locateIn_eq_none {n : Nat} {ls : List Level} (h : locateIn line n ls = none) :
    ∀ l ∈ ls, l.contains line = false := by
  induction ls generalizing n with
  | nil => nofun
  | cons l ls ih =>
    rw [locateIn] at h
    split at h
    · cases h
    · rename_i hl
      intro c hc
      rcases List.mem_cons.1 hc with rfl | hc
      · exact Bool.eq_false_iff.2 hl
      · exact ih h c hc

theorem locateIn_eq_some {n : Nat} {ls : List Level} {path : List Nat} {m : Level}
    (h : locateIn line n ls = some (path, m)) :
    ∃ before c behind, ls = before ++ c :: behind ∧ c.contains line = true ∧
      path = (n + before.length) :: (c.locate line).1 ∧ m = (c.locate line).2 := by
  induction ls generalizing n with
  | nil => cases h
  | cons l ls ih =>
    rw [locateIn] at h
    split at h
    · rename_i hl
      cases h
      exact ⟨[], l, ls, rfl, hl, rfl, rfl⟩
    · obtain ⟨before, c, behind, rfl, hc, rfl, rfl⟩ := ih h
      exact ⟨l :: before, c, behind, rfl, hc, by rw [List.length_cons]; congr 1; omega, rfl⟩

theorem locate_cases (l : Level) :
    (∃ before c behind, l.children = before ++ c :: behind ∧ c.contains line = true ∧
        l.locate line = (before.length :: (c.locate line).1, (c.locate line).2)) ∨
      ((∀ c ∈ l.children, c.contains line = false) ∧ l.locate line = ([], l)) := by
  obtain ⟨start, stop, labels, children⟩ := l
  rw [locate]
  cases hin : locateIn line 0 children with
  | some found =>
    obtain ⟨path, m⟩ := found
    obtain ⟨before, c, behind, hsplit, hc, rfl, rfl⟩ := locateIn_eq_some hin
    exact .inl ⟨before, c, behind, hsplit, hc, by rw [Nat.zero_add]⟩
  | none => exact .inr ⟨locateIn_eq_none hin, rfl⟩

theorem descend_locate {l : Level} (h : l.Nested) :
    descend (l.locate line).1 l = some (l.locate line).2 := by
  induction h with
  | mk l orderly children ih =>
    rcases @locate_cases line l with ⟨before, c, behind, hsplit, -, hlocate⟩ | ⟨-, hlocate⟩
    · rw [hlocate, descend, hsplit, List.getElem?_append_right (Nat.le_refl _), Nat.sub_self]
      exact ih c (hsplit ▸ List.mem_append_right before List.mem_cons_self)
    · rw [hlocate, descend]

theorem descend_cons (n : Nat) (path : List Nat) (l : Level) :
    descend (n :: path) l = l.children[n]?.bind (descend path) :=
  rfl

/-- A level at the end of a path is nested as well, and inside of the one where the path begins. -/
theorem Nested.of_descend {l m : Level} (h : l.Nested) {path : List Nat}
    (hpath : descend path l = some m) : m.Nested ∧ l.start ≤ m.start ∧ m.stop ≤ l.stop := by
  induction path generalizing l with
  | nil =>
    obtain rfl : l = m := Option.some.inj hpath
    exact ⟨h, Nat.le_refl _, Nat.le_refl _⟩
  | cons n path ih =>
    obtain ⟨c, hc, hpath⟩ := Option.bind_eq_some_iff.1 hpath
    obtain ⟨l, orderly, children⟩ := h
    have hmem := List.mem_of_getElem? hc
    have hbounds := orderly.children_mem c hmem
    obtain ⟨hm, hstart, hstop⟩ := ih (children c hmem) hpath
    exact ⟨hm, Nat.le_trans hbounds.1 hstart, Nat.le_trans hstop hbounds.2.2⟩

theorem Nested.contains_of_descend {l c m : Level} (h : l.Nested) (hc : c ∈ l.children)
    {path : List Nat} (hpath : descend path c = some m) (hm : m.contains line = true) :
    c.contains line = true := by
  obtain ⟨-, hstart, hstop⟩ := (h.children c hc).of_descend hpath
  rw [contains_iff] at hm ⊢
  omega

/-- From a level that has the line, locating it goes on as from there. -/
theorem Nested.locate_of_descend {l m : Level} (h : l.Nested) {path : List Nat}
    (hpath : descend path l = some m) (hm : m.contains line = true) :
    l.locate line = (path ++ (m.locate line).1, (m.locate line).2) := by
  induction path generalizing l with
  | nil =>
    obtain rfl : l = m := Option.some.inj hpath
    rfl
  | cons n path ih =>
    obtain ⟨c, hc, hbelow⟩ := Option.bind_eq_some_iff.1 hpath
    have hmem := List.mem_of_getElem? hc
    have hcontains := h.contains_of_descend hmem hbelow hm
    -- children are apart, so the one that has the line is the one on the path
    rcases @locate_cases line l with ⟨before, c', behind, hsplit, hc', hlocate⟩ | ⟨hfree, -⟩
    · have hat : l.children[before.length]? = some c' := by
        rw [hsplit, List.getElem?_append_right (Nat.le_refl _), Nat.sub_self,
          List.getElem?_cons_zero]
      obtain rfl := h.orderly.child_unique hc hat hcontains hc'
      obtain rfl : c = c' := Option.some.inj (hc.symm.trans hat)
      rw [hlocate, ih (h.children c hmem) hbelow]
      rfl
    · rw [hfree c hmem] at hcontains
      cases hcontains

theorem ascend_cases (line : Nat) (l : Level) (path : List Nat) :
    l.ascend line path = [] ∨
      ∃ m, descend (l.ascend line path).reverse l = some m ∧ m.contains line = true := by
  induction path with
  | nil => exact .inl rfl
  | cons n up ih =>
    rw [ascend]
    split
    · rename_i hany
      exact .inr ((Option.any_eq_true _ _).1 hany)
    · exact ih

/-- Wherever the walk begins, it ends in the innermost level. -/
theorem Nested.walk_eq {l : Level} (h : l.Nested) (line : Nat) (path : List Nat) :
    l.walk line path = l.locate line := by
  rw [walk]
  rcases l.ascend_cases line path.reverse with hroot | ⟨m, hm, hcontains⟩
  · rw [hroot]
    rfl
  · simp only [hm, Option.getD_some]
    exact (h.locate_of_descend hm hcontains).symm

theorem mem_contents {l : Level} (h : l.Nested) {e : Nat × Label} (he : e ∈ l.contents) :
    l.start ≤ e.1 ∧ e.1 < l.stop := by
  induction h with
  | mk l orderly children ih =>
    obtain ⟨start, stop, labels, ls⟩ := l
    rw [contents, contentsAll_eq] at he
    rcases List.mem_append.1 he with he | he
    · exact orderly.labels_mem e he
    · obtain ⟨c, hc, he⟩ := List.mem_flatMap.1 he
      have hbounds := orderly.children_mem c hc
      have hmem := ih c hc he
      exact ⟨Nat.le_trans hbounds.1 hmem.1, Nat.lt_of_lt_of_le hmem.2 hbounds.2.2⟩

/-- Lines that are not in any of these levels have no labels there. -/
theorem filter_contentsAll_eq_nil {ls : List Level} (hnested : ∀ c ∈ ls, c.Nested)
    {p : Nat → Bool} (hp : ∀ c ∈ ls, ∀ k, p k = true → ¬ (c.start ≤ k ∧ k < c.stop)) :
    (contentsAll ls).filter (p ·.1) = [] := by
  rw [contentsAll_eq, List.filter_eq_nil_iff]
  intro e he hpe
  obtain ⟨c, hc, he⟩ := List.mem_flatMap.1 he
  exact hp c hc e.1 hpe (mem_contents (hnested c hc) he)

/-- The innermost level of a line that is in the outermost: it has the line, no child of it does,
and it has all labels on lines of its own. -/
structure IsInnermost (l m : Level) (line : Nat) : Prop where
  nested : m.Nested
  within : l.start ≤ m.start ∧ m.stop ≤ l.stop
  contains : m.start ≤ line ∧ line < m.stop
  children : ∀ c ∈ m.children, c.contains line = false
  filter_eq : ∀ p : Nat → Bool, (∀ k, p k = true → m.start ≤ k ∧ k < m.stop) →
    l.contents.filter (p ·.1) = m.contents.filter (p ·.1)

theorem filter_contents_of_child {l c : Level} {before behind : List Level} (orderly : l.Orderly)
    (hnested : ∀ c ∈ l.children, c.Nested) (hsplit : l.children = before ++ c :: behind)
    {p : Nat → Bool} (hp : ∀ k, p k = true → c.start ≤ k ∧ k < c.stop) :
    l.contents.filter (p ·.1) = c.contents.filter (p ·.1) := by
  obtain ⟨start, stop, labels, ls⟩ := l
  obtain rfl : ls = before ++ c :: behind := hsplit
  obtain ⟨-, hcons, hcross⟩ := List.pairwise_append.1 orderly.children_apart
  have hc := List.mem_append_right before (List.mem_cons_self (a := c) (l := behind))
  have hlabels : labels.filter (p ·.1) = [] := by
    rw [List.filter_eq_nil_iff]
    intro e he hpe
    exact orderly.labels_between e he c hc (hp e.1 hpe)
  have hbefore : (contentsAll before).filter (p ·.1) = [] := by
    refine filter_contentsAll_eq_nil (fun d hd => hnested d (List.mem_append_left _ hd)) ?_
    intro d hd k hk
    have hapart := hcross d hd c List.mem_cons_self
    have hmem := hp k hk
    omega
  have hbehind : (contentsAll behind).filter (p ·.1) = [] := by
    refine filter_contentsAll_eq_nil
      (fun d hd => hnested d (List.mem_append_right _ (List.mem_cons_of_mem c hd))) ?_
    intro d hd k hk
    have hapart := (List.pairwise_cons.1 hcons).1 d hd
    have hmem := hp k hk
    omega
  rw [contents, contentsAll_append, contentsAll, List.filter_append, List.filter_append,
    List.filter_append, hlabels, hbefore, hbehind, List.nil_append, List.nil_append,
    List.append_nil]

theorem locate_isInnermost {l : Level} (h : l.Nested) (hline : l.start ≤ line ∧ line < l.stop) :
    l.IsInnermost (l.locate line).2 line := by
  induction h with
  | mk l orderly children ih =>
    rcases @locate_cases line l with ⟨before, c, behind, hsplit, hc, hlocate⟩ | ⟨hfree, hlocate⟩
    · have hmem : c ∈ l.children := hsplit ▸ List.mem_append_right before List.mem_cons_self
      have hchild := ih c hmem (contains_iff.1 hc)
      have hbounds := orderly.children_mem c hmem
      rw [hlocate]
      refine ⟨hchild.nested, ?_, hchild.contains, hchild.children, fun p hp => ?_⟩
      · exact ⟨Nat.le_trans hbounds.1 hchild.within.1, Nat.le_trans hchild.within.2 hbounds.2.2⟩
      · have hpc : ∀ k, p k = true → c.start ≤ k ∧ k < c.stop := fun k hk =>
          ⟨Nat.le_trans hchild.within.1 (hp k hk).1, Nat.lt_of_lt_of_le (hp k hk).2 hchild.within.2⟩
        rw [filter_contents_of_child orderly children hsplit hpc, hchild.filter_eq p hp]
    · rw [hlocate]
      exact ⟨.mk l orderly children, ⟨Nat.le_refl _, Nat.le_refl _⟩, hline, hfree, fun p _ => rfl⟩

namespace IsInnermost

variable {l m : Level}

/-- Labels on lines of the innermost level are counted there. -/
theorem count_eq (h : l.IsInnermost m line) {p : Nat → Bool}
    (hp : ∀ k, p k = true → m.start ≤ k ∧ k < m.stop) :
    m.count p = l.contents.countP (p ·.1) := by
  rw [Level.count_eq, List.countP_eq_length_filter, List.countP_eq_length_filter,
    h.filter_eq p hp]

theorem get?_eq (h : l.IsInnermost m line) : m.labels.get? line = l.contents.get? line := by
  have hfilter := h.filter_eq (· == line) fun k hk => by
    rw [beq_iff_eq] at hk
    rw [hk]
    exact h.contains
  have hself : (line == line) = true := beq_self_eq_true line
  rw [← NatMap.get?_filter (p := (· == line)) hself l.contents, hfilter,
    NatMap.get?_filter (p := (· == line)) hself m.contents]
  obtain ⟨m, orderly, hchildren⟩ := h.nested
  have hnone : NatMap.get? line (contentsAll m.children) = none := by
    refine NatMap.get?_eq_none fun e he heq => ?_
    rw [contentsAll_eq] at he
    obtain ⟨c, hc, he⟩ := List.mem_flatMap.1 he
    have hmem := mem_contents (hchildren c hc) he
    rw [heq, ← contains_iff, h.children c hc] at hmem
    cases hmem
  obtain ⟨start, stop, labels, children⟩ := m
  rw [contents, NatMap.get?_append, hnone, Option.or_none]

end IsInnermost

end Level
end Disassembly
