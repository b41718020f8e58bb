import Disassembly.Line.Arrows
import Mathlib.Data.List.Perm.Subperm
import Mathlib.Data.List.Sort

/-! # What the arrows of a window are

The arrows are told here without the way they are found: a branch is joined to the first instruction
at the address it has for a value, and the first branches that are joined to something get a lane
each. What is drawn on a line follows from these pairs of lines.
-/

namespace Disassembly

def Line.withoutRails (l : Line) : Line :=
  { l with rails := {} }

/-- Arrows change nothing but the rails. -/
theorem layoutArrows_withoutRails (lines : List Line) :
    (layoutArrows lines).1.map Line.withoutRails = lines.map Line.withoutRails := by
  rw [layoutArrows, List.map_map]
  conv => rhs; rw [← List.zipIdx_map_fst 0 lines, List.map_map]
  rfl

namespace Rails

def meets (bits : UInt8) (r : Rails) : Prop :=
  r.bits &&& bits ≠ 0

theorem hasLane_iff {lane : Nat} {r : Rails} :
    r.hasLane lane ↔ lane < lanes ∧ r.meets (laneBit lane) := by
  simp [hasLane, meets]

theorem isStart_iff {r : Rails} : r.isStart ↔ r.meets startBit := by
  simp [isStart, meets]

theorem isEnd_iff {r : Rails} : r.isEnd ↔ r.meets endBit := by
  simp [isEnd, meets]

@[simp] theorem not_meets_empty (bits : UInt8) : ¬ ({} : Rails).meets bits := by
  simp [meets]

/-! No two kinds of mark share a bit, and none has the top one. -/

theorem laneBit_and_laneBit {lane k : Nat} (hlane : lane < lanes) (hk : k < lanes) :
    laneBit lane &&& laneBit k ≠ 0 ↔ lane = k := by
  have hall : ∀ lane < lanes, ∀ k < lanes, laneBit lane &&& laneBit k ≠ 0 ↔ lane = k := by decide
  exact hall lane hlane k hk

theorem laneBit_and_markers {lane : Nat} (hlane : lane < lanes) :
    laneBit lane &&& startBit = 0 ∧ laneBit lane &&& endBit = 0 ∧ laneBit lane &&& 0x80 = 0 := by
  have hall : ∀ lane < lanes, laneBit lane &&& startBit = 0 ∧ laneBit lane &&& endBit = 0 ∧
      laneBit lane &&& 0x80 = 0 := by decide
  exact hall lane hlane

theorem or_and_ne_zero {a b bits : UInt8} :
    (a ||| b) &&& bits ≠ 0 ↔ a &&& bits ≠ 0 ∨ b &&& bits ≠ 0 := by
  have hor : (a ||| b) &&& bits = (a &&& bits) ||| (b &&& bits) := by
    apply UInt8.toBitVec_inj.1
    ext i
    simp [Bool.and_or_distrib_right]
  rw [hor, ne_eq, UInt8.or_eq_zero_iff, not_and_or]

theorem meets_add {bits more : UInt8} {r : Rails} :
    (r.add more).meets bits ↔ r.meets bits ∨ more &&& bits ≠ 0 :=
  or_and_ne_zero

end Rails

namespace Arrow

/-! ### The lines that are joined -/

/-- Line `i` is a branch, and line `j` is the first instruction at the address that it has for a
value. -/
def Joins (lines : List Line) (i j : Nat) : Prop :=
  ∃ l m, lines[i]? = some l ∧ l.isInstruction ∧ l.flow.isBranch ∧ l.value = some m.address ∧
    lines[j]? = some m ∧ m.isInstruction ∧
    ∀ k < j, ∀ m', lines[k]? = some m' → m'.isInstruction → m'.address ≠ m.address

/-- The pairs of lines that get an arrow: those that are joined, in the order of the branches, until
there is no lane left. -/
structure FirstJoined (lines : List Line) (pairs : List (Nat × Nat)) : Prop where
  joins : ∀ p ∈ pairs, Joins lines p.1 p.2
  ordered : pairs.Pairwise fun p q => p.1 < q.1
  length_le : pairs.length ≤ Rails.lanes
  /-- What gets no arrow comes too late. -/
  missed : ∀ p : Nat × Nat, Joins lines p.1 p.2 → p ∉ pairs →
    pairs.length = Rails.lanes ∧ ∀ q ∈ pairs, q.1 < p.1

/-- What the arrows of some pairs draw on line `place`. -/
structure Draws (pairs : List (Nat × Nat)) (place : Nat) (r : Rails) : Prop where
  hasLane_iff : ∀ lane, r.hasLane lane ↔
    ∃ p, pairs[lane]? = some p ∧ min p.1 p.2 ≤ place ∧ place ≤ max p.1 p.2
  isStart_iff : r.isStart ↔ ∃ p ∈ pairs, place = min p.1 p.2
  isEnd_iff : r.isEnd ↔ ∃ p ∈ pairs, place = max p.1 p.2
  top_bit : r.bits &&& 0x80 = 0

def between (p : Nat × Nat) : Arrow :=
  { top := min p.1 p.2, bottom := max p.1 p.2 }

variable {lines : List Line}

section FirstJoined

variable {pairs pairs' : List (Nat × Nat)}

theorem FirstJoined.nodup (h : FirstJoined lines pairs) : pairs.Nodup :=
  List.nodup_iff_pairwise_ne.2 (h.ordered.imp fun hlt heq => Nat.ne_of_lt hlt (congrArg _ heq))

theorem FirstJoined.subset (h : FirstJoined lines pairs) (h' : FirstJoined lines pairs') :
    pairs ⊆ pairs' := by
  intro p hp
  by_contra hmissing
  obtain ⟨hfull, hearlier⟩ := h'.missed p (h.joins p hp) hmissing
  -- nothing of the other ones is missing here, so here is one more than there are lanes
  have hsub : pairs' ⊆ pairs := by
    intro q hq
    by_contra hmissing'
    exact Nat.lt_asymm (hearlier q hq) ((h.missed q (h'.joins q hq) hmissing').2 p hp)
  have hlength : (p :: pairs').length ≤ pairs.length := by
    apply List.Subperm.length_le
    apply List.subperm_of_subset (List.nodup_cons.2 ⟨hmissing, h'.nodup⟩)
    exact List.cons_subset.2 ⟨hp, hsub⟩
  rw [List.length_cons, hfull] at hlength
  exact absurd h.length_le (by omega)

/-- There is no choice in which pairs get an arrow. -/
theorem FirstJoined.unique (h : FirstJoined lines pairs) (h' : FirstJoined lines pairs') :
    pairs = pairs' := by
  have hperm : pairs.Perm pairs' := by
    apply (List.perm_ext_iff_of_nodup h.nodup h'.nodup).2
    exact fun p => ⟨fun hp => h.subset h' hp, fun hp => h'.subset h hp⟩
  refine List.Perm.eq_of_pairwise ?_ h.ordered h'.ordered hperm
  intro p q _ _ hpq hqp
  exact absurd hpq (Nat.lt_asymm hqp)

end FirstJoined

theorem joins_withoutRails {i j : Nat} :
    Joins (lines.map Line.withoutRails) i j ↔ Joins lines i j := by
  simp [Joins, Line.withoutRails, Line.isInstruction]

theorem joins_congr {lines' : List Line} {i j : Nat}
    (heq : lines.map Line.withoutRails = lines'.map Line.withoutRails) :
    Joins lines i j ↔ Joins lines' i j := by
  rw [← joins_withoutRails, heq, joins_withoutRails]

theorem FirstJoined.congr {lines' : List Line} {pairs : List (Nat × Nat)}
    (heq : lines.map Line.withoutRails = lines'.map Line.withoutRails)
    (h : FirstJoined lines pairs) : FirstJoined lines' pairs where
  joins p hp := (joins_congr heq).1 (h.joins p hp)
  ordered := h.ordered
  length_le := h.length_le
  missed p hjoins hp := h.missed p ((joins_congr heq).2 hjoins) hp

/-! ### How they are found -/

theorem mem_addressRange {m : Line} (hmem : m ∈ lines) (hm : m.isInstruction) :
    ∃ low high, addressRange? lines = some (low, high) ∧ low ≤ m.address ∧ m.address ≤ high := by
  induction lines with
  | nil => cases hmem
  | cons l ls ih =>
    rw [addressRange?]
    obtain rfl | hmem := List.mem_cons.1 hmem
    · rw [if_pos hm]
      cases addressRange? ls with
      | none => exact ⟨_, _, rfl, Nat.le_refl _, Nat.le_refl _⟩
      | some range => exact ⟨_, _, rfl, Nat.min_le_left _ _, Nat.le_max_left _ _⟩
    · obtain ⟨low, high, hrange, hlow, hhigh⟩ := ih hmem
      rw [hrange]
      by_cases hl : l.isInstruction
      · rw [if_pos hl]
        exact ⟨_, _, rfl, by omega, by omega⟩
      · rw [if_neg hl]
        exact ⟨_, _, rfl, hlow, hhigh⟩

def target? (lines : List Line) (l : Line) : Option Nat :=
  match l.value with
  | none => none
  | some value =>
    if l.isInstruction && l.flow.isBranch then
      lines.findIdx? fun m => m.isInstruction && m.address == value
    else none

/-- The lines that are joined, without regard to the number of lanes. -/
def joined (lines : List Line) : List (Nat × Nat) :=
  lines.zipIdx.filterMap fun (l, place) => (target? lines l).map (place, ·)

theorem target?_eq_some_iff {i j : Nat} {l : Line} (hl : lines[i]? = some l) :
    target? lines l = some j ↔ Joins lines i j := by
  constructor
  · intro h
    cases hvalue : l.value with
    | none => simp [target?, hvalue] at h
    | some value =>
      simp only [target?, hvalue, Option.ite_none_right_eq_some, Bool.and_eq_true] at h
      obtain ⟨⟨hinstruction, hbranch⟩, hfind⟩ := h
      obtain ⟨hj, hmatch, hfirst⟩ := List.findIdx?_eq_some_iff_getElem.1 hfind
      simp only [Bool.and_eq_true, beq_iff_eq] at hmatch hfirst
      refine ⟨l, lines[j], hl, hinstruction, hbranch, ?_, List.getElem?_eq_getElem hj, hmatch.1, ?_⟩
      · rw [hvalue, hmatch.2]
      · intro k hk m hm hinstruction'
        obtain ⟨hk', rfl⟩ := List.getElem?_eq_some_iff.1 hm
        rw [hmatch.2]
        exact fun haddress => hfirst k hk ⟨hinstruction', haddress⟩
  · rintro ⟨l', m, hl', hinstruction, hbranch, hvalue, hm, htarget, hfirst⟩
    obtain rfl : l = l' := Option.some.inj (hl.symm.trans hl')
    obtain ⟨hj, rfl⟩ := List.getElem?_eq_some_iff.1 hm
    simp only [target?, hvalue, hinstruction, hbranch, Bool.and_self, if_true]
    apply List.findIdx?_eq_some_iff_getElem.2
    refine ⟨hj, by simp [htarget], fun k hk => ?_⟩
    simp only [Bool.and_eq_true, beq_iff_eq, not_and]
    exact hfirst k hk _ (List.getElem?_eq_getElem _)

theorem mem_joined {p : Nat × Nat} : p ∈ joined lines ↔ Joins lines p.1 p.2 := by
  rw [joined, List.mem_filterMap]
  constructor
  · rintro ⟨⟨l, place⟩, hmem, hp⟩
    obtain ⟨j, hj, rfl⟩ := Option.map_eq_some_iff.1 hp
    exact (target?_eq_some_iff (List.mem_zipIdx_iff_getElem?.1 hmem)).1 hj
  · intro h
    obtain ⟨l, -, hl, -⟩ := id h
    refine ⟨(l, p.1), List.mem_zipIdx_iff_getElem?.2 hl, ?_⟩
    simp [(target?_eq_some_iff hl).2 h]

theorem joined_ordered : (joined lines).Pairwise fun p q => p.1 < q.1 := by
  have hplaces : lines.zipIdx.Pairwise fun a b => a.2 < b.2 := by
    apply List.pairwise_map.1
    rw [List.zipIdx_map_snd]
    exact List.pairwise_lt_range' 1
  apply hplaces.filterMap
  intro a b hlt p hp q hq
  obtain ⟨i, -, rfl⟩ := Option.map_eq_some_iff.1 hp
  obtain ⟨j, -, rfl⟩ := Option.map_eq_some_iff.1 hq
  exact hlt

theorem firstJoined_take : FirstJoined lines ((joined lines).take Rails.lanes) where
  joins p hp := mem_joined.1 (List.mem_of_mem_take hp)
  ordered := joined_ordered.sublist (List.take_sublist _ _)
  length_le := by simp
  missed p hjoins hp := by
    have hmem := mem_joined.2 hjoins
    have hordered := @joined_ordered lines
    rw [← List.take_append_drop Rails.lanes (joined lines)] at hmem hordered
    have hlate := (List.mem_append.1 hmem).resolve_left hp
    refine ⟨?_, fun q hq => (List.pairwise_append.1 hordered).2.2 q hq p hlate⟩
    have hdrop := List.length_pos_of_mem hlate
    rw [List.length_drop] at hdrop
    rw [List.length_take]
    omega

/-- Nothing is lost by the range of addresses. -/
theorem ofLine?_eq {low high : Nat} (hrange : addressRange? lines = some (low, high)) (l : Line)
    (place : Nat) :
    ofLine? lines (low, high) l place = (target? lines l).map fun j => between (place, j) := by
  cases hvalue : l.value with
  | none => simp only [ofLine?, target?, hvalue, Option.map_none]
  | some value =>
    simp only [ofLine?, target?, hvalue]
    cases hfind : lines.findIdx? fun m => m.isInstruction && m.address == value with
    | none => simp
    | some j =>
      obtain ⟨hj, hmatch, -⟩ := List.findIdx?_eq_some_iff_getElem.1 hfind
      simp only [Bool.and_eq_true, beq_iff_eq] at hmatch
      obtain ⟨_, _, hrange', hlow, hhigh⟩ := mem_addressRange (List.getElem_mem hj) hmatch.1
      cases hrange.symm.trans hrange'
      rw [hmatch.2] at hlow hhigh
      by_cases hl : l.isInstruction && l.flow.isBranch
      · simp [hl, hlow, hhigh, between]
      · simp [hl]

theorem ofLines_eq : ofLines lines = ((joined lines).take Rails.lanes).map between := by
  rw [ofLines]
  cases hrange : addressRange? lines with
  | none =>
    -- no instruction is shown, so there is nothing to be joined to
    have hnone : joined lines = [] := by
      apply List.eq_nil_iff_forall_not_mem.2
      intro p hp
      obtain ⟨-, m, -, -, -, -, hm, htarget, -⟩ := mem_joined.1 hp
      obtain ⟨_, _, hrange', -⟩ := mem_addressRange (List.mem_of_getElem? hm) htarget
      cases hrange.symm.trans hrange'
    simp [hnone]
  | some range =>
    rw [joined, List.map_take, List.map_filterMap]
    simp only [ofLine?_eq hrange, Option.map_map]
    rfl

/-! ### What is drawn -/

section Drawing

variable {lane place : Nat} {a : Arrow} {arrows : List Arrow}

theorem bitsOn_and (bits : UInt8) :
    a.bitsOn lane place &&& bits ≠ 0 ↔
      place = a.top ∧ Rails.startBit &&& bits ≠ 0 ∨
        place = a.bottom ∧ Rails.endBit &&& bits ≠ 0 ∨
        (a.top ≤ place ∧ place ≤ a.bottom) ∧ Rails.laneBit lane &&& bits ≠ 0 := by
  have hite (p : Prop) [Decidable p] (b : UInt8) :
      (if p then b else 0) &&& bits ≠ 0 ↔ p ∧ b &&& bits ≠ 0 := by
    by_cases hp : p <;> simp [hp]
  rw [bitsOn, Rails.or_and_ne_zero, Rails.or_and_ne_zero, hite, hite, hite, or_assoc]

theorem railsOn_meets {bits : UInt8} :
    (railsOn place lane arrows).meets bits ↔
      ∃ (k : Nat) (a : Arrow), arrows[k]? = some a ∧ a.bitsOn (lane + k) place &&& bits ≠ 0 := by
  induction arrows generalizing lane with
  | nil => simp [railsOn]
  | cons a arrows ih =>
    rw [railsOn, Rails.meets_add, ih]
    constructor
    · rintro (⟨k, b, hb, hbits⟩ | hbits)
      · exact ⟨k + 1, b, hb, by rwa [← Nat.add_right_comm] at hbits⟩
      · exact ⟨0, a, rfl, hbits⟩
    · rintro ⟨k, b, hb, hbits⟩
      cases k with
      | zero =>
        obtain rfl := Option.some.inj hb
        exact .inr hbits
      | succ k => exact .inl ⟨k, b, hb, by rwa [Nat.add_right_comm]⟩

/-- What is drawn on a line, by the pairs of lines that the arrows are between. -/
theorem railsOn_between {pairs : List (Nat × Nat)} {bits : UInt8} :
    (railsOn place 0 (pairs.map between)).meets bits ↔
      ((∃ p ∈ pairs, place = min p.1 p.2) ∧ Rails.startBit &&& bits ≠ 0) ∨
        ((∃ p ∈ pairs, place = max p.1 p.2) ∧ Rails.endBit &&& bits ≠ 0) ∨
        ∃ k p, pairs[k]? = some p ∧ (min p.1 p.2 ≤ place ∧ place ≤ max p.1 p.2) ∧
          Rails.laneBit k &&& bits ≠ 0 := by
  simp only [railsOn_meets, List.getElem?_map, Option.map_eq_some_iff, Nat.zero_add, bitsOn_and,
    List.mem_iff_getElem?]
  constructor
  · rintro ⟨k, -, ⟨p, hp, rfl⟩, ⟨hplace, hbits⟩ | ⟨hplace, hbits⟩ | hthrough⟩
    · exact .inl ⟨⟨p, ⟨k, hp⟩, hplace⟩, hbits⟩
    · exact .inr (.inl ⟨⟨p, ⟨k, hp⟩, hplace⟩, hbits⟩)
    · exact .inr (.inr ⟨k, p, hp, hthrough⟩)
  · rintro (⟨⟨p, ⟨k, hp⟩, hplace⟩, hbits⟩ | ⟨⟨p, ⟨k, hp⟩, hplace⟩, hbits⟩ | ⟨k, p, hp, hthrough⟩)
    · exact ⟨k, between p, ⟨p, hp, rfl⟩, .inl ⟨hplace, hbits⟩⟩
    · exact ⟨k, between p, ⟨p, hp, rfl⟩, .inr (.inl ⟨hplace, hbits⟩)⟩
    · exact ⟨k, between p, ⟨p, hp, rfl⟩, .inr (.inr hthrough)⟩

/-- Each kind of mark is told by bits of its own, as there are no more arrows than lanes. -/
theorem railsOn_draws {pairs : List (Nat × Nat)} (hlength : pairs.length ≤ Rails.lanes)
    (place : Nat) : Draws pairs place (railsOn place 0 (pairs.map between)) := by
  have hlane {k : Nat} {p : Nat × Nat} (hp : pairs[k]? = some p) : k < Rails.lanes :=
    Nat.lt_of_lt_of_le (List.getElem?_eq_some_iff.1 hp).1 hlength
  constructor
  · intro lane
    rw [Rails.hasLane_iff, railsOn_between]
    constructor
    · rintro ⟨hlt, ⟨-, hbits⟩ | ⟨-, hbits⟩ | ⟨k, p, hp, hplace, hbits⟩⟩
      · rw [UInt8.and_comm] at hbits
        exact absurd (Rails.laneBit_and_markers hlt).1 hbits
      · rw [UInt8.and_comm] at hbits
        exact absurd (Rails.laneBit_and_markers hlt).2.1 hbits
      · obtain rfl := (Rails.laneBit_and_laneBit (hlane hp) hlt).1 hbits
        exact ⟨p, hp, hplace⟩
    · rintro ⟨p, hp, hplace⟩
      have hself := (Rails.laneBit_and_laneBit (hlane hp) (hlane hp)).2 rfl
      exact ⟨hlane hp, .inr (.inr ⟨lane, p, hp, hplace, hself⟩)⟩
  · rw [Rails.isStart_iff, railsOn_between]
    constructor
    · rintro (⟨hplace, -⟩ | ⟨-, hbits⟩ | ⟨k, p, hp, -, hbits⟩)
      · exact hplace
      · exact absurd (by decide) hbits
      · exact absurd (Rails.laneBit_and_markers (hlane hp)).1 hbits
    · exact fun hplace => .inl ⟨hplace, by decide⟩
  · rw [Rails.isEnd_iff, railsOn_between]
    constructor
    · rintro (⟨-, hbits⟩ | ⟨hplace, -⟩ | ⟨k, p, hp, -, hbits⟩)
      · exact absurd (by decide) hbits
      · exact hplace
      · exact absurd (Rails.laneBit_and_markers (hlane hp)).2.1 hbits
    · exact fun hplace => .inr (.inl ⟨hplace, by decide⟩)
  · by_contra hmeets
    obtain ⟨-, hbits⟩ | ⟨-, hbits⟩ | ⟨k, p, hp, -, hbits⟩ := railsOn_between.1 hmeets
    · exact absurd (by decide) hbits
    · exact absurd (by decide) hbits
    · exact absurd (Rails.laneBit_and_markers (hlane hp)).2.2 hbits

end Drawing

end Arrow

theorem layoutArrows_eq {lines : List Line} {pairs : List (Nat × Nat)}
    (h : Arrow.FirstJoined lines pairs) :
    layoutArrows lines = (lines.mapIdx fun place l =>
      { l with rails := Arrow.railsOn place 0 (pairs.map Arrow.between) }, pairs.length) := by
  rw [layoutArrows, Arrow.ofLines_eq, h.unique Arrow.firstJoined_take, List.mapIdx_eq_zipIdx_map,
    List.length_map]

/-- There is one list of the pairs of lines that are joined first. Arrows are drawn between these and
nowhere else, over whatever was in the margin, and drawing them again makes no difference. -/
theorem layoutArrows_draws (lines : List Line) :
    ∃ pairs, (∀ pairs', Arrow.FirstJoined lines pairs' ↔ pairs' = pairs) ∧
      (layoutArrows lines).2 = pairs.length ∧
      (layoutArrows lines).1.length = lines.length ∧
      (∀ place l, lines[place]? = some l → ∃ r : Rails,
        (layoutArrows lines).1[place]? = some { l with rails := r } ∧
          Arrow.Draws pairs place r) ∧
      layoutArrows (layoutArrows lines).1 = layoutArrows lines := by
  have hpairs := @Arrow.firstJoined_take lines
  have hagain := hpairs.congr (layoutArrows_withoutRails lines).symm
  refine ⟨_, fun pairs' => ⟨fun h => h.unique hpairs, ?_⟩, ?_, ?_, fun place l hl => ?_, ?_⟩
  · rintro rfl
    exact hpairs
  · rw [layoutArrows_eq hpairs]
  · rw [layoutArrows_eq hpairs, List.length_mapIdx]
  · rw [layoutArrows_eq hpairs, List.getElem?_mapIdx, hl]
    exact ⟨_, rfl, Arrow.railsOn_draws hpairs.length_le place⟩
  · rw [layoutArrows_eq hagain, layoutArrows_eq hpairs, List.mapIdx_mapIdx]
    rfl

end Disassembly
