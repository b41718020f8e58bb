import Disassembly.Proofs.Levels.Refinement

/-! # The ranges of levels

Which range may be nested in a tree of levels can be read off the ranges that are there, at whatever
depth they are: none of them may cross it, and none but the root's may be the same. If it is nested,
it is one more range of the tree, and all others stay.
-/

namespace Disassembly
namespace Level

mutual

def ranges : Level → List (Nat × Nat)
  | ⟨start, stop, _, children⟩ => (start, stop) :: rangesAll children

def rangesAll : List Level → List (Nat × Nat)
  | [] => []
  | l :: ls => l.ranges ++ rangesAll ls

end

def inner (l : Level) : List (Nat × Nat) :=
  rangesAll l.children

/-- Two ranges have lines in common, and each has lines that the other one does not have. -/
def Crosses (r r' : Nat × Nat) : Prop :=
  r.1 < r'.2 ∧ r'.1 < r.2 ∧ ¬ (r.1 ≤ r'.1 ∧ r'.2 ≤ r.2) ∧ ¬ (r'.1 ≤ r.1 ∧ r.2 ≤ r'.2)

section Ranges

theorem ranges_eq (l : Level) : l.ranges = l.bounds :: l.inner := by
  cases l
  rfl

theorem bounds_mem_ranges (l : Level) : l.bounds ∈ l.ranges := by
  rw [ranges_eq]
  exact List.mem_cons_self

theorem rangesAll_eq (ls : List Level) : rangesAll ls = ls.flatMap ranges := by
  induction ls with
  | nil => rfl
  | cons l ls ih => rw [rangesAll, List.flatMap_cons, ih]

theorem rangesAll_append (ls ms : List Level) :
    rangesAll (ls ++ ms) = rangesAll ls ++ rangesAll ms := by
  simp only [rangesAll_eq, List.flatMap_append]

theorem mem_inner_iff {l : Level} {r : Nat × Nat} : r ∈ l.inner ↔ ∃ c ∈ l.children, r ∈ c.ranges := by
  rw [inner, rangesAll_eq, List.mem_flatMap]

/-- All levels below a level are inside it, and none of them is empty. -/
theorem Nested.inner_mem {l : Level} (h : l.Nested) {r : Nat × Nat} (hr : r ∈ l.inner) :
    l.start ≤ r.1 ∧ r.1 < r.2 ∧ r.2 ≤ l.stop := by
  induction h with
  | mk l orderly children ih =>
    obtain ⟨c, hc, hr⟩ := mem_inner_iff.1 hr
    have hbounds := orderly.children_mem c hc
    rw [ranges_eq] at hr
    rcases List.mem_cons.1 hr with rfl | hr
    · exact hbounds
    · have hmem := ih c hc hr
      omega

theorem Nested.ranges_mem {l : Level} (h : l.Nested) (hlt : l.start < l.stop) {r : Nat × Nat}
    (hr : r ∈ l.ranges) : l.start ≤ r.1 ∧ r.1 < r.2 ∧ r.2 ≤ l.stop := by
  rw [ranges_eq] at hr
  rcases List.mem_cons.1 hr with rfl | hr
  · exact ⟨Nat.le_refl _, hlt, Nat.le_refl _⟩
  · exact h.inner_mem hr

end Ranges

section Nest

variable {start stop : Nat} {isRoot : Bool}

theorem nestIn_cases (start stop : Nat) (ls : List Level) :
    (∃ before c behind, ls = before ++ c :: behind ∧ c.spans start stop = true ∧
        nestIn? start stop ls =
          some ((c.nest? start stop false).map fun c' => before ++ c' :: behind)) ∨
      ((∀ c ∈ ls, c.spans start stop = false) ∧ nestIn? start stop ls = none) := by
  induction ls with
  | nil => exact .inr ⟨nofun, rfl⟩
  | cons l ls ih =>
    rw [nestIn?]
    by_cases hl : l.spans start stop = true
    · exact .inl ⟨[], l, ls, rfl, hl, by rw [if_pos hl]; rfl⟩
    · rw [if_neg hl]
      rcases ih with ⟨before, c, behind, rfl, hc, hnest⟩ | ⟨hfree, hnest⟩
      · refine .inl ⟨l :: before, c, behind, rfl, hc, ?_⟩
        rw [hnest, Option.map_some, Option.map_map]
        rfl
      · refine .inr ⟨?_, by rw [hnest]; rfl⟩
        intro c hc
        rcases List.mem_cons.1 hc with rfl | hc
        · exact Bool.eq_false_iff.2 hl
        · exact hfree c hc

/-- Nesting goes on below a child that spans the range. Where none does the range is put right below
the level, unless it crosses a child, or is all of a level that is not the root. -/
theorem nest_cases (start stop : Nat) (isRoot : Bool) (l : Level) :
    (∃ before c behind, l.children = before ++ c :: behind ∧ c.spans start stop = true ∧
        l.nest? start stop isRoot =
          (c.nest? start stop false).map fun c' => { l with children := before ++ c' :: behind }) ∨
      ((∀ c ∈ l.children, c.spans start stop = false) ∧
        ((l.Clears start stop ∧ (l.bounds = (start, stop) → isRoot = true) ∧
            l.nest? start stop isRoot = some (wrap start stop l)) ∨
          (¬ (l.Clears start stop ∧ (l.bounds = (start, stop) → isRoot = true)) ∧
            l.nest? start stop isRoot = none))) := by
  obtain ⟨start', stop', labels, ls⟩ := l
  rw [nest?]
  rcases nestIn_cases start stop ls with ⟨before, c, behind, rfl, hc, hnest⟩ | ⟨hfree, hnest⟩
  · refine .inl ⟨before, c, behind, rfl, hc, ?_⟩
    rw [hnest]
    dsimp only
    rw [Option.map_map]
    rfl
  · refine .inr ⟨hfree, ?_⟩
    have hclears : (ls.all fun c => c.isWithin start stop || c.isApart start stop) = true ↔
        Clears start stop ⟨start', stop', labels, ls⟩ := by
      simp [Clears]
    have hsame : ¬ ((start' = start ∧ stop' = stop) ∧ ¬ isRoot = true) ↔
        ((start', stop') = (start, stop) → isRoot = true) := by
      simp
    have hnests := and_congr hclears hsame
    rw [hnest]
    by_cases hboth : Clears start stop ⟨start', stop', labels, ls⟩ ∧
        ((start', stop') = (start, stop) → isRoot = true)
    · exact .inl ⟨hboth.1, hboth.2, if_pos (hnests.2 hboth)⟩
    · exact .inr ⟨hboth, if_neg (mt hnests.1 hboth)⟩

/-- A level that is put around others has its own range, and they keep theirs. -/
theorem ranges_wrap (start stop : Nat) (l : Level) :
    (wrap start stop l).ranges.Perm ((start, stop) :: l.ranges) := by
  have hchildren : (rangesAll (l.children.filter (·.isWithin start stop)) ++
      rangesAll (l.outside start stop)).Perm (rangesAll l.children) := by
    rw [← rangesAll_append, rangesAll_eq, rangesAll_eq]
    exact (List.filter_append_perm _ l.children).flatMap_right ranges
  have houtside : rangesAll (l.outside start stop) =
      rangesAll ((l.outside start stop).takeWhile (·.start < start)) ++
        rangesAll ((l.outside start stop).dropWhile (·.start < start)) := by
    rw [← rangesAll_append, List.takeWhile_append_dropWhile]
  rw [houtside] at hchildren
  rw [List.perm_iff_count] at hchildren ⊢
  intro r
  have hcount := hchildren r
  simp only [wrap_eq, ranges_eq, bounds, inner, nestling, rangesAll_append, rangesAll,
    List.count_append, List.count_cons] at hcount ⊢
  omega

/-- Nesting a level adds its range to those of the tree, and that is all. -/
theorem Nested.ranges_nest {l l' : Level} (h : l.Nested)
    (hnest : l.nest? start stop isRoot = some l') :
    l'.ranges.Perm ((start, stop) :: l.ranges) := by
  induction h generalizing isRoot l' with
  | mk l orderly children ih =>
    rcases nest_cases start stop isRoot l with ⟨before, c, behind, hsplit, -, hcases⟩ | ⟨-, hcases⟩
    · rw [hcases] at hnest
      obtain ⟨c', hc', rfl⟩ := Option.map_eq_some_iff.1 hnest
      have hperm := ih c (hsplit ▸ List.mem_append_right before List.mem_cons_self) hc'
      rw [List.perm_iff_count] at hperm ⊢
      intro r
      have hcount := hperm r
      simp only [ranges_eq l, ranges_eq { l with children := before ++ c' :: behind }, bounds, inner,
        hsplit, rangesAll_append, rangesAll, List.count_append, List.count_cons] at hcount ⊢
      omega
    · rcases hcases with ⟨-, -, hsome⟩ | ⟨-, hnone⟩
      · rw [hsome] at hnest
        cases hnest
        exact ranges_wrap start stop l
      · rw [hnone] at hnest
        cases hnest

/-- A range that no level is allowed to have if `(start, stop)` is to be added. -/
abbrev Bars (start stop : Nat) (r : Nat × Nat) : Prop :=
  Crosses r (start, stop) ∨ r = (start, stop)

/-- Levels inside one that is apart from a range do not bar it. -/
theorem not_bars_of_apart {l : Level} {r : Nat × Nat} (hlt : start < stop)
    (hapart : l.stop ≤ start ∨ stop ≤ l.start) (hr : l.start ≤ r.1 ∧ r.1 < r.2 ∧ r.2 ≤ l.stop) :
    ¬ Bars start stop r := by
  rintro (⟨hleft, hright, -⟩ | rfl)
  · dsimp only at hleft hright
    omega
  · dsimp only at hr
    omega

/-- A child that does not span the range bars it just if it is not cleared by it, and then no level
below it bars it either. -/
theorem not_bars_iff_of_not_spans {c : Level} (hc : c.Nested) (hlen : c.start < c.stop)
    (hlt : start < stop) (hspans : c.spans start stop = false) :
    (∀ r ∈ c.ranges, ¬ Bars start stop r) ↔
      c.isWithin start stop = true ∨ c.isApart start stop = true := by
  have hnot : ¬ (c.start ≤ start ∧ stop ≤ c.stop) := by
    rw [← spans_iff, hspans]
    exact Bool.false_ne_true
  rw [isWithin_iff, isApart_iff]
  constructor
  · intro hbars
    have hself : ¬ Crosses c.bounds (start, stop) := fun hcross =>
      hbars c.bounds c.bounds_mem_ranges (.inl hcross)
    simp only [Crosses, bounds] at hself
    omega
  · rintro (hwithin | hapart) r hr
    · have hmem := hc.ranges_mem hlen hr
      rintro (⟨-, -, -, hinside⟩ | rfl)
      · exact hinside (by dsimp only; omega)
      · exact hnot ⟨hmem.1, hmem.2.2⟩
    · exact not_bars_of_apart hlt hapart (hc.ranges_mem hlen hr)

/-- A range can be nested in a level that spans it if no level below bars it. It may be all of the
level only if that is the root. -/
theorem Nested.isSome_nest_iff {l : Level} (h : l.Nested) (hlt : start < stop)
    (hspans : l.spans start stop = true) :
    (l.nest? start stop isRoot).isSome = true ↔
      (∀ r ∈ l.inner, ¬ Bars start stop r) ∧ (l.bounds = (start, stop) → isRoot = true) := by
  induction h generalizing isRoot with
  | mk l orderly children ih =>
    have hmem : ∀ r, r ∈ l.inner ↔ ∃ c ∈ l.children, r ∈ c.ranges := fun r => mem_inner_iff
    have hlen : ∀ c ∈ l.children, c.start < c.stop := fun c hc => (orderly.children_mem c hc).2.1
    rcases nest_cases start stop isRoot l with
      ⟨before, c, behind, hsplit, hcspans, hcases⟩ | ⟨hfree, hcases⟩
    · have hc : c ∈ l.children := hsplit ▸ List.mem_append_right before List.mem_cons_self
      have hchild := spans_iff.1 hcspans
      have hbounds := orderly.children_mem c hc
      rw [hcases, Option.isSome_map, ih c hc hcspans]
      constructor
      · rintro ⟨hinner, hself⟩
        have hne : c.bounds ≠ (start, stop) := fun heq => Bool.false_ne_true (hself heq)
        refine ⟨fun r hr => ?_, fun heq => absurd ?_ hne⟩
        · obtain ⟨d, hd, hr⟩ := (hmem r).1 hr
          by_cases hdc : d.stop ≤ start ∨ stop ≤ d.start
          · exact not_bars_of_apart hlt hdc ((children d hd).ranges_mem (hlen d hd) hr)
          · -- a child that has lines of the range is the one that spans it
            have hsame : d = c := by
              have hdlen := hlen d hd
              obtain ⟨n, hn⟩ := List.mem_iff_getElem?.1 hd
              obtain ⟨n', hn'⟩ := List.mem_iff_getElem?.1 hc
              have hshared : d.contains (max d.start start) = true ∧
                  c.contains (max d.start start) = true := by
                rw [contains_iff, contains_iff]
                omega
              obtain rfl := orderly.child_unique hn hn' hshared.1 hshared.2
              exact Option.some.inj (hn.symm.trans hn')
            rw [hsame, ranges_eq] at hr
            rcases List.mem_cons.1 hr with rfl | hr
            · rintro (⟨-, -, hinside, -⟩ | heq)
              · exact hinside hchild
              · exact hne heq
            · exact hinner r hr
        · have hstart : l.start = start := congrArg Prod.fst heq
          have hstop : l.stop = stop := congrArg Prod.snd heq
          rw [bounds, Prod.mk.injEq]
          omega
      · rintro ⟨hinner, -⟩
        refine ⟨fun r hr => hinner r ?_, fun heq => ?_⟩
        · exact (hmem r).2 ⟨c, hc, by rw [ranges_eq]; exact List.mem_cons_of_mem _ hr⟩
        · exact absurd (.inr heq) (hinner c.bounds ((hmem _).2 ⟨c, hc, c.bounds_mem_ranges⟩))
    · have hclears : l.Clears start stop ↔ ∀ r ∈ l.inner, ¬ Bars start stop r := by
        constructor
        · intro hclears r hr
          obtain ⟨c, hc, hr⟩ := (hmem r).1 hr
          exact (not_bars_iff_of_not_spans (children c hc) (hlen c hc) hlt (hfree c hc)).2
            (hclears c hc) r hr
        · intro hinner c hc
          apply (not_bars_iff_of_not_spans (children c hc) (hlen c hc) hlt (hfree c hc)).1
          intro r hr
          exact hinner r ((hmem r).2 ⟨c, hc, hr⟩)
      rcases hcases with ⟨hclear, hself, hsome⟩ | ⟨hnot, hnone⟩
      · rw [hsome]
        exact iff_of_true rfl ⟨hclears.1 hclear, hself⟩
      · rw [hnone]
        refine iff_of_false Bool.false_ne_true fun hboth => hnot ⟨hclears.2 hboth.1, hboth.2⟩

end Nest

end Level
end Disassembly
