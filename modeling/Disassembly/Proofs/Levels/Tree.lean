import Disassembly.Proofs.Levels.Ranges

/-! # The tree of levels

Whatever is put into levels or nested in them, they stay a tree of ranges: each level is inside the
one above it, no level but a child of the root is as large as that one, and a label is kept in the
innermost level that has its line.
-/

namespace Disassembly
namespace Level

/-- No level has the bounds of one right below it. -/
inductive Strict : Level → Prop where
  | mk (l : Level) (bounds_ne : ∀ c ∈ l.children, c.bounds ≠ l.bounds)
      (children : ∀ c ∈ l.children, c.Strict) : l.Strict

section Nest

variable {start stop : Nat} {isRoot : Bool}

/-- What is put around children is not as large as one of them, if none of them spans its range. -/
theorem wrap_children_strict {l : Level} (hstrict : ∀ c ∈ l.children, c.Strict)
    (hfree : ∀ c ∈ l.children, c.spans start stop = false) :
    ∀ c ∈ (wrap start stop l).children, c = l.nestling start stop ∧ c.Strict ∨
      c ∈ l.children ∧ c.Strict := by
  have houtside : ∀ c ∈ l.outside start stop, c ∈ l.children := fun c hc => (List.mem_filter.1 hc).1
  intro c hc
  rw [wrap_eq] at hc
  rcases List.mem_append.1 hc with hc | hc
  · have hmem := houtside c ((List.takeWhile_sublist _).subset hc)
    exact .inr ⟨hmem, hstrict c hmem⟩
  · rcases List.mem_cons.1 hc with rfl | hc
    · refine .inl ⟨rfl, .mk _ (fun d hd heq => ?_) fun d hd => hstrict d (List.mem_filter.1 hd).1⟩
      have hspans : d.spans start stop = true := by
        rw [spans_iff]
        exact ⟨Nat.le_of_eq (congrArg Prod.fst heq), Nat.le_of_eq (congrArg Prod.snd heq).symm⟩
      rw [hfree d (List.mem_filter.1 hd).1] at hspans
      cases hspans
    · have hmem := houtside c ((List.dropWhile_sublist _).subset hc)
      exact .inr ⟨hmem, hstrict c hmem⟩

theorem nest_bounds {l l' : Level} (hnest : l.nest? start stop isRoot = some l') :
    l'.bounds = l.bounds := by
  rcases nest_cases start stop isRoot l with ⟨before, c, behind, -, -, hcases⟩ | ⟨-, hcases⟩
  · rw [hcases] at hnest
    obtain ⟨c', -, rfl⟩ := Option.map_eq_some_iff.1 hnest
    rfl
  · rcases hcases with ⟨-, -, hsome⟩ | ⟨-, hnone⟩
    · rw [hsome] at hnest
      cases hnest
      rw [wrap_eq]
      rfl
    · rw [hnone] at hnest
      cases hnest

theorem eq_or_mem_of_replaced {before behind : List Level} {c c' d : Level}
    (hd : d ∈ before ++ c' :: behind) : d = c' ∨ d ∈ before ++ c :: behind := by
  rcases List.mem_append.1 hd with hd | hd
  · exact .inr (List.mem_append_left _ hd)
  · rcases List.mem_cons.1 hd with rfl | hd
    · exact .inl rfl
    · exact .inr (List.mem_append_right before (List.mem_cons_of_mem c hd))

/-- Nesting a level below one that is not the root leaves no level as large as one below it. -/
theorem Strict.nest {l l' : Level} (h : l.Strict) (hnest : l.nest? start stop false = some l') :
    l'.Strict := by
  induction h generalizing l' with
  | mk l bounds_ne children ih =>
    rcases nest_cases start stop false l with ⟨before, c, behind, hsplit, -, hcases⟩ | ⟨hfree, hcases⟩
    · rw [hcases] at hnest
      obtain ⟨c', hc', rfl⟩ := Option.map_eq_some_iff.1 hnest
      rw [hsplit] at bounds_ne children ih
      have hc : c ∈ before ++ c :: behind := List.mem_append_right before List.mem_cons_self
      apply Strict.mk
      · intro d hd
        rcases eq_or_mem_of_replaced hd with rfl | hd
        · rw [nest_bounds hc']
          exact bounds_ne c hc
        · exact bounds_ne d hd
      · intro d hd
        rcases eq_or_mem_of_replaced hd with rfl | hd
        · exact ih c hc hc'
        · exact children d hd
    · rcases hcases with ⟨-, hself, hsome⟩ | ⟨-, hnone⟩
      · have hbounds := nest_bounds hnest
        rw [hsome] at hnest
        cases hnest
        have hchildren := wrap_children_strict children hfree
        apply Strict.mk
        · intro c hc
          rw [hbounds]
          rcases hchildren c hc with ⟨rfl, -⟩ | ⟨hc, -⟩
          · exact fun heq => Bool.false_ne_true (hself heq.symm)
          · exact bounds_ne c hc
        · intro c hc
          exact (hchildren c hc).elim And.right And.right
      · rw [hnone] at hnest
        cases hnest

theorem children_strict_nest {l l' : Level} (hstrict : ∀ c ∈ l.children, c.Strict)
    (hnest : l.nest? start stop isRoot = some l') : ∀ c ∈ l'.children, c.Strict := by
  rcases nest_cases start stop isRoot l with ⟨before, c, behind, hsplit, -, hcases⟩ | ⟨hfree, hcases⟩
  · rw [hcases] at hnest
    obtain ⟨c', hc', rfl⟩ := Option.map_eq_some_iff.1 hnest
    rw [hsplit] at hstrict
    intro d hd
    rcases eq_or_mem_of_replaced hd with rfl | hd
    · exact (hstrict c (List.mem_append_right before List.mem_cons_self)).nest hc'
    · exact hstrict d hd
  · rcases hcases with ⟨-, -, hsome⟩ | ⟨-, hnone⟩
    · rw [hsome] at hnest
      cases hnest
      exact fun c hc => (wrap_children_strict hstrict hfree c hc).elim And.right And.right
    · rw [hnone] at hnest
      cases hnest

end Nest

theorem bounds_mem_of_descend {l m : Level} {path : List Nat} (hpath : descend path l = some m) :
    m.bounds ∈ l.ranges := by
  induction path generalizing l with
  | nil =>
    obtain rfl : l = m := Option.some.inj hpath
    exact l.bounds_mem_ranges
  | cons n path ih =>
    obtain ⟨c, hc, hpath⟩ := Option.bind_eq_some_iff.1 hpath
    rw [ranges_eq]
    exact List.mem_cons_of_mem _ (mem_inner_iff.2 ⟨c, List.mem_of_getElem? hc, ih hpath⟩)

theorem bounds_mem_inner {l m : Level} {n : Nat} {path : List Nat}
    (hpath : descend (n :: path) l = some m) : m.bounds ∈ l.inner := by
  obtain ⟨c, hc, hpath⟩ := Option.bind_eq_some_iff.1 hpath
  exact mem_inner_iff.2 ⟨c, List.mem_of_getElem? hc, bounds_mem_of_descend hpath⟩

/-- The level `m` at the end of the path is the innermost one that has the line: any other level that
has it is on the way to `m`. -/
structure IsHome (l m : Level) (path : List Nat) (line : Nat) : Prop where
  contains : m.contains line = true
  locate_eq : l.locate line = (path, m)
  on_path : ∀ path' m', descend path' l = some m' → m'.contains line = true → path' <+: path

/-- A label is kept in the innermost level that has its line. -/
theorem Nested.isHome {l m : Level} (h : l.Nested) {path : List Nat}
    (hpath : descend path l = some m) {e : Nat × Label} (he : e ∈ m.labels) :
    l.IsHome m path e.1 := by
  have orderly := (h.of_descend hpath).1.orderly
  have hcontains : m.contains e.1 = true := contains_iff.2 (orderly.labels_mem e he)
  have hself : m.locate e.1 = ([], m) := by
    rcases @locate_cases e.1 m with ⟨before, c, behind, hsplit, hc, -⟩ | ⟨-, hlocate⟩
    · have hmem : c ∈ m.children := hsplit ▸ List.mem_append_right before List.mem_cons_self
      exact absurd (contains_iff.1 hc) (orderly.labels_between e he c hmem)
    · exact hlocate
  have hlocate : l.locate e.1 = (path, m) := by
    rw [h.locate_of_descend hpath hcontains, hself, List.append_nil]
  refine ⟨hcontains, hlocate, fun path' m' hpath' hm' => ?_⟩
  -- from any level that has the line the same place is located
  have hend := h.locate_of_descend hpath' hm'
  rw [hlocate] at hend
  exact ⟨(m'.locate e.1).1, (congrArg Prod.fst hend).symm⟩

section Insert

variable {line : Nat} {label : Label}

theorem shiftBound_inj {a b : Nat} : shiftBound line a = shiftBound line b ↔ a = b := by
  unfold shiftBound
  split <;> split <;> omega

theorem shift_bounds_inj {l m : Level} : (l.shift line).bounds = (m.shift line).bounds ↔
    l.bounds = m.bounds := by
  simp only [bounds, shift_start, shift_stop, Prod.mk.injEq, shiftBound_inj]

theorem Strict.shift {l : Level} (h : l.Strict) : (l.shift line).Strict := by
  induction h with
  | mk l bounds_ne children ih =>
    apply Strict.mk
    · intro c hc
      rw [shift_children] at hc
      obtain ⟨c', hc', rfl⟩ := List.mem_map.1 hc
      rw [Ne, shift_bounds_inj]
      exact bounds_ne c' hc'
    · intro c hc
      rw [shift_children] at hc
      obtain ⟨c', hc', rfl⟩ := List.mem_map.1 hc
      exact ih c' hc'

/-- Each child is shifted, or the label goes into it. -/
theorem insert_child (line : Nat) (label : Label) (l : Level) (n : Nat) :
    (l.insert line label).children[n]? = l.children[n]?.map (shift line) ∨
      (l.insert line label).children[n]? = l.children[n]?.map (insert line label) := by
  cases hin : insertIn line label l.children with
  | none =>
    rw [insert_of_insertIn_eq_none hin]
    dsimp only
    rw [shift_children, List.getElem?_map]
    exact .inl rfl
  | some children =>
    obtain ⟨before, c, behind, hsplit, -, rfl⟩ := insertIn_eq_some hin
    rw [insert_of_insertIn hin, hsplit]
    dsimp only
    by_cases hn : n = before.length
    · subst hn
      simp
    · left
      by_cases hlt : n < before.length
      · simp [List.getElem?_append, hlt]
      · obtain ⟨k, hk⟩ : ∃ k, n - before.length = k + 1 := ⟨n - before.length - 1, by omega⟩
        simp [List.getElem?_append, hlt, hk]

theorem insert_children_mem {l d : Level} (hd : d ∈ (l.insert line label).children) :
    ∃ c ∈ l.children, d = c.shift line ∨ d = c.insert line label := by
  obtain ⟨n, hn⟩ := List.mem_iff_getElem?.1 hd
  rcases insert_child line label l n with hchild | hchild
  · rw [hchild] at hn
    obtain ⟨c, hc, rfl⟩ := Option.map_eq_some_iff.1 hn
    exact ⟨c, List.mem_of_getElem? hc, .inl rfl⟩
  · rw [hchild] at hn
    obtain ⟨c, hc, rfl⟩ := Option.map_eq_some_iff.1 hn
    exact ⟨c, List.mem_of_getElem? hc, .inr rfl⟩

theorem Strict.insert {l : Level} (h : l.Strict) : (l.insert line label).Strict := by
  induction h with
  | mk l bounds_ne children ih =>
    apply Strict.mk
    · intro d hd
      obtain ⟨c, hc, hdc⟩ := insert_children_mem hd
      have hbounds : d.bounds = (c.shift line).bounds := by
        rcases hdc with rfl | rfl
        · rfl
        · exact insert_bounds c
      rw [hbounds, insert_bounds, Ne, shift_bounds_inj]
      exact bounds_ne c hc
    · intro d hd
      obtain ⟨c, hc, rfl | rfl⟩ := insert_children_mem hd
      · exact (children c hc).shift
      · exact ih c hc

theorem descend_shift (path : List Nat) (l : Level) :
    descend path (l.shift line) = (descend path l).map (shift line) := by
  induction path generalizing l with
  | nil => rfl
  | cons n path ih =>
    rw [descend_cons, descend_cons, shift_children, List.getElem?_map]
    cases l.children[n]? with
    | none => rfl
    | some c => exact ih c

/-- Each level stays where it is in the tree, with its bounds shifted. -/
theorem descend_insert_bounds (line : Nat) (label : Label) (path : List Nat) (l : Level) :
    (descend path (l.insert line label)).map bounds =
      (descend path l).map fun m => (m.shift line).bounds := by
  induction path generalizing l with
  | nil =>
    rw [descend, descend, Option.map_some, Option.map_some, insert_bounds]
  | cons n path ih =>
    rw [descend_cons, descend_cons]
    rcases insert_child line label l n with hchild | hchild
    · rw [hchild]
      cases l.children[n]? with
      | none => rfl
      | some c =>
        rw [Option.map_some, Option.bind_some, Option.bind_some, descend_shift, Option.map_map]
        rfl
    · rw [hchild]
      cases l.children[n]? with
      | none => rfl
      | some c => exact ih c

/-- The range `r` when a label is put on `line`: it has one line more if it has that line, and is one
line further down if it begins behind it. -/
def grown (line : Nat) (r : Nat × Nat) : Nat × Nat :=
  if r.1 ≤ line ∧ line < r.2 then (r.1, r.2 + 1)
  else if line < r.1 then (r.1 + 1, r.2 + 1)
  else r

theorem grown_of_mem {r : Nat × Nat} (hstart : r.1 ≤ line) (hstop : line < r.2) :
    grown line r = (r.1, r.2 + 1) :=
  if_pos ⟨hstart, hstop⟩

theorem shift_bounds {l : Level} (h : l.start ≤ l.stop) :
    (l.shift line).bounds = grown line l.bounds := by
  by_cases hstart : line < l.start
  · have hstop : line < l.stop := Nat.lt_of_lt_of_le hstart h
    simp [bounds, grown, shiftBound, hstart, hstop, Nat.not_le.2 hstart]
  · by_cases hstop : line < l.stop <;>
      simp [bounds, grown, shiftBound, hstart, hstop, Nat.le_of_not_lt hstart]

end Insert

end Level

namespace Levels

open Level

variable {s : Levels}

/-- The levels are a tree of ranges with each label in the innermost level that has its line. What may
be added, and what changes when a level or a label is, is said in terms of the ranges. -/
structure IsTree (s : Levels) : Prop where
  nested : s.root.Nested
  strict : ∀ l ∈ s.root.children, l.Strict
  home : ∀ path l, descend path s.root = some l → ∀ e ∈ l.labels, s.root.IsHome l path e.1
  addLevel_ok_iff : ∀ first last, (∃ s', s.addLevel first last = .ok s') ↔
    first < last ∧ last ≤ s.size ∧ (∀ r ∈ s.root.ranges, ¬ Crosses r (first, last)) ∧
      (first, last) ∉ s.root.inner
  addLevel_ok : ∀ first last s', s.addLevel first last = .ok s' →
    s'.root.ranges.Perm ((first, last) :: s.root.ranges) ∧ s'.root.bounds = s.root.bounds ∧
      s'.root.contents.Perm s.root.contents ∧
      ∀ line, s'.root.contents.get? line = s.root.contents.get? line
  refused : ∀ first last e, s.addLevel first last = .error e →
    s.perform (.addLevel first last) = s
  insert_ok_iff : ∀ line label, (∃ s', s.insert line label = .ok s') ↔ line ≤ s.size
  insert_ok : ∀ line label s', s.insert line label = .ok s' →
    ∀ path, (descend path s'.root).map bounds = (descend path s.root).map fun l =>
      if path = [] ∧ line = s.size then (l.start, l.stop + 1) else grown line l.bounds
  insert_contents : ∀ line label s', s.insert line label = .ok s' →
    s'.root.contents.Perm ((line, label) ::
      s.root.contents.map fun e => (if line ≤ e.1 then e.1 + 1 else e.1, e.2))

variable {n : Nat} {flat : List Resolved}

theorem nest_of_addLevel {first last : Nat} {s' : Levels} (h : s.addLevel first last = .ok s') :
    first < last ∧ last ≤ s.size ∧ s.root.nest? first last true = some s'.root := by
  by_cases hrange : last ≤ first ∨ s.size < last
  · rw [addLevel, if_pos hrange] at h
    cases h
  · rw [addLevel, if_neg hrange] at h
    cases hnest : s.root.nest? first last true with
    | none =>
      rw [hnest] at h
      cases h
    | some root =>
      rw [hnest] at h
      cases h
      exact ⟨by omega, by omega, rfl⟩

/-- A level may be added if its range crosses none and is that of none but the root. -/
theorem Sound.addLevel_ok_iff (hs : s.Sound) (first last : Nat) :
    (∃ s', s.addLevel first last = .ok s') ↔
      first < last ∧ last ≤ s.size ∧ (∀ r ∈ s.root.ranges, ¬ Crosses r (first, last)) ∧
        (first, last) ∉ s.root.inner := by
  by_cases hrange : first < last ∧ last ≤ s.size
  · obtain ⟨hlt, hle⟩ := hrange
    have hroot : s.root.start ≤ first ∧ last ≤ s.root.stop := ⟨by rw [hs.start_eq]; omega, hle⟩
    have hnest : (∃ s', s.addLevel first last = .ok s') ↔
        (s.root.nest? first last true).isSome = true := by
      rw [Levels.addLevel, if_neg (by omega)]
      cases s.root.nest? first last true <;> simp
    rw [hnest, hs.nested.isSome_nest_iff hlt (spans_iff.2 hroot), Level.ranges_eq]
    constructor
    · rintro ⟨hbars, -⟩
      refine ⟨hlt, hle, fun r hr => ?_, fun hmem => hbars _ hmem (.inr rfl)⟩
      rcases List.mem_cons.1 hr with rfl | hr
      · exact fun hcross => hcross.2.2.1 hroot
      · exact fun hcross => hbars r hr (.inl hcross)
    · rintro ⟨-, -, hcrosses, hnew⟩
      refine ⟨fun r hr => ?_, fun _ => rfl⟩
      rintro (hcross | rfl)
      · exact hcrosses r (List.mem_cons_of_mem _ hr) hcross
      · exact hnew hr
  · apply iff_of_false
    · rintro ⟨s', h⟩
      obtain ⟨hlt, hle, -⟩ := nest_of_addLevel h
      exact hrange ⟨hlt, hle⟩
    · rintro ⟨hlt, hle, -⟩
      exact hrange ⟨hlt, hle⟩

/-- A label makes the levels that have its line longer, and moves those behind it. -/
theorem Sound.insert_bounds (hs : s.Sound) {line : Nat} {label : Label} {s' : Levels}
    (h : s.insert line label = .ok s') (path : List Nat) :
    (descend path s'.root).map bounds = (descend path s.root).map fun l =>
      if path = [] ∧ line = s.size then (l.start, l.stop + 1) else grown line l.bounds := by
  have hle := le_size_of_insert h
  rw [insert_of_le hs label hle] at h
  obtain rfl := Except.ok.inj h
  cases path with
  | nil =>
    have hstart : (s.root.insert line label).start = s.root.start := by
      have hfirst := congrArg Prod.fst (@Level.insert_bounds line label s.root)
      refine hfirst.trans ((shift_start line s.root).trans ?_)
      rw [shiftBound, hs.start_eq, if_neg (Nat.not_lt_zero line)]
    have hzero : s.root.start ≤ line := by
      rw [hs.start_eq]
      exact Nat.zero_le line
    simp only [descend, Option.map_some, hstart, true_and, Option.some.injEq]
    by_cases hlast : line = s.size
    · rw [if_pos hlast]
      rfl
    · rw [if_neg hlast, grown_of_mem hzero (Nat.lt_of_le_of_ne hle hlast)]
      rfl
  | cons n path =>
    have hchildren := descend_insert_bounds line label (n :: path) s.root
    rw [descend_cons] at hchildren
    rw [descend_cons, hchildren]
    apply Option.map_congr
    intro m hm
    have hlt := (hs.nested.inner_mem (bounds_mem_inner hm)).2.1
    rw [if_neg (by simp), shift_bounds (Nat.le_of_lt hlt)]

/-- A label is refused only if there is no line for it, not even behind the last. -/
theorem Sound.insert_ok_iff (hs : s.Sound) (line : Nat) (label : Label) :
    (∃ s', s.insert line label = .ok s') ↔ line ≤ s.size := by
  constructor
  · rintro ⟨s', h⟩
    exact le_size_of_insert h
  · intro hle
    exact ⟨_, insert_of_le hs label hle⟩

/-- There is one more label, and those at or behind its line are pushed down. -/
theorem Sound.insert_contents (hs : s.Sound) {line : Nat} {label : Label} {s' : Levels}
    (h : s.insert line label = .ok s') :
    s'.root.contents.Perm ((line, label) :: shiftLabels line s.root.contents) := by
  rw [insert_of_le hs label (le_size_of_insert h)] at h
  obtain rfl := Except.ok.inj h
  rw [contents_with_stop]
  exact contents_insert line label s.root

/-- No level but a child of the root is as large as the one above it, whatever is asked for. -/
theorem Models.perform_strict (h : s.Models n flat) (hstrict : ∀ c ∈ s.root.children, c.Strict)
    (request : Request) : ∀ c ∈ (s.perform request).root.children, c.Strict := by
  cases request with
  | insert line label =>
    rw [Levels.perform]
    split
    · rename_i s' hinsert
      rw [insert_of_le h.sound label (le_size_of_insert hinsert)] at hinsert
      obtain rfl := Except.ok.inj hinsert
      intro d hd
      obtain ⟨c, hc, rfl | rfl⟩ := insert_children_mem hd
      · exact (hstrict c hc).shift
      · exact (hstrict c hc).insert
    · exact hstrict
  | addLevel first last =>
    rw [Levels.perform]
    split
    · rename_i s' hadd
      exact children_strict_nest hstrict (nest_of_addLevel hadd).2.2
    · exact hstrict
  | resolve line =>
    rw [Levels.perform, resolve_root]
    exact hstrict
  | peek | lineOfReal => exact hstrict

theorem Models.run_strict (h : s.Models n flat) (hstrict : ∀ c ∈ s.root.children, c.Strict)
    (requests : List Request) : ∀ c ∈ (requests.foldl Levels.perform s).root.children, c.Strict := by
  induction requests generalizing s flat with
  | nil => exact hstrict
  | cons request requests ih => exact ih (h.perform request) (h.perform_strict hstrict request)

theorem Models.isTree (h : s.Models n flat) (hstrict : ∀ c ∈ s.root.children, c.Strict) :
    s.IsTree where
  nested := h.sound.nested
  strict := hstrict
  home path l hpath e he := h.sound.nested.isHome hpath he
  addLevel_ok_iff first last := h.sound.addLevel_ok_iff first last
  addLevel_ok first last s' hadd := by
    obtain ⟨-, -, hnest⟩ := nest_of_addLevel hadd
    have hperm := contents_nest first last true s.root s'.root hnest
    exact ⟨h.sound.nested.ranges_nest hnest, nest_bounds hnest, hperm,
      NatMap.get?_perm h.sound.distinct hperm.symm⟩
  refused first last e hadd := by
    rw [Levels.perform, hadd]
  insert_ok_iff line label := h.sound.insert_ok_iff line label
  insert_ok line label s' hinsert := h.sound.insert_bounds hinsert
  insert_contents line label s' hinsert := h.sound.insert_contents hinsert

/-- After any requests the levels of a zone are a tree of ranges. -/
theorem run_isTree (n : Nat) (requests : List Request) :
    (requests.foldl perform (start n)).IsTree :=
  ((start_models n).run requests).isTree ((start_models n).run_strict nofun requests)

end Levels
end Disassembly
