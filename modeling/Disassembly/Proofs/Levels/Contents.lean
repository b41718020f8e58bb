import Disassembly.Levels.Edit

/-! # The labels in a tree of levels

All labels of a tree together are what is counted. Making room shifts them, putting a label in adds
it to them, and nesting another level only moves them about.
-/

namespace Disassembly

theorem NatMap.insert_perm {α : Type} {key : Nat} {m : NatMap α}
    (h : ∀ e ∈ m, e.1 ≠ key) (v : α) : (m.insert key v).Perm ((key, v) :: m) := by
  induction m with
  | nil => exact List.Perm.refl _
  | cons e m ih =>
    obtain ⟨k, u⟩ := e
    have hne : key ≠ k := fun heq => h (k, u) List.mem_cons_self heq.symm
    have hrest := ih fun e he => h e (List.mem_cons_of_mem (k, u) he)
    rw [NatMap.insert, if_neg hne]
    split
    · exact List.Perm.refl _
    · exact (hrest.cons (k, u)).trans (List.Perm.swap _ _ _)

namespace NatMap

variable {α : Type} {key : Nat} {m : NatMap α}

theorem get?_append (key : Nat) (m m' : NatMap α) :
    get? key (m ++ m') = (get? key m).or (get? key m') := by
  induction m with
  | nil => rfl
  | cons e m ih =>
    obtain ⟨k, v⟩ := e
    rw [List.cons_append, get?, get?]
    split
    · rfl
    · exact ih

theorem get?_eq_none (h : ∀ e ∈ m, e.1 ≠ key) : get? key m = none := by
  induction m with
  | nil => rfl
  | cons e m ih =>
    obtain ⟨k, v⟩ := e
    rw [get?, if_neg (h (k, v) List.mem_cons_self)]
    exact ih fun e he => h e (List.mem_cons_of_mem (k, v) he)

theorem get?_filter {p : Nat → Bool} (h : p key = true) (m : NatMap α) :
    get? key (m.filter (p ·.1)) = get? key m := by
  induction m with
  | nil => rfl
  | cons e m ih =>
    obtain ⟨k, v⟩ := e
    rw [List.filter_cons, get?]
    by_cases hk : k = key
    · subst hk
      rw [if_pos h, get?, if_pos rfl, if_pos rfl]
    · rw [if_neg hk, ← ih]
      split
      · rw [get?, if_neg hk]
      · rfl

theorem get?_eq_ite {v : Option α} (h : get? key m = v) (k : Nat) :
    get? k m = if k = key then v else get? k m := by
  split
  · rename_i hk
    rw [hk, h]
  · rfl

theorem mem_of_get? {v : α} (h : get? key m = some v) : (key, v) ∈ m := by
  induction m with
  | nil => cases h
  | cons e m ih =>
    obtain ⟨k, u⟩ := e
    rw [get?] at h
    split at h
    · rename_i hk
      cases h
      rw [hk]
      exact List.mem_cons_self
    · exact List.mem_cons_of_mem _ (ih h)

end NatMap

namespace Level

mutual

/-- The labels in this level and below. -/
def contents : Level → NatMap Label
  | ⟨_, _, labels, children⟩ => labels ++ contentsAll children

def contentsAll : List Level → NatMap Label
  | [] => []
  | l :: ls => l.contents ++ contentsAll ls

end

mutual

theorem count_eq (p : Nat → Bool) : (l : Level) → l.count p = l.contents.countP (p ·.1)
  | ⟨_, _, labels, children⟩ => by
    rw [count, contents, List.countP_append, countAll_eq p children]

theorem countAll_eq (p : Nat → Bool) :
    (ls : List Level) → countAll p ls = (contentsAll ls).countP (p ·.1)
  | [] => rfl
  | l :: ls => by rw [countAll, contentsAll, List.countP_append, count_eq p l, countAll_eq p ls]

end

theorem contentsAll_eq (ls : List Level) : contentsAll ls = ls.flatMap contents := by
  induction ls with
  | nil => rfl
  | cons l ls ih => rw [contentsAll, List.flatMap_cons, ih]

/-- Where a label goes when a line is put in at `line`. -/
def shiftKey (line k : Nat) : Nat :=
  if line ≤ k then k + 1 else k

theorem shiftLabels_eq (line : Nat) (labels : NatMap Label) :
    shiftLabels line labels = labels.map fun e => (shiftKey line e.1, e.2) :=
  rfl

theorem shiftLabels_append (line : Nat) (labels others : NatMap Label) :
    shiftLabels line (labels ++ others) = shiftLabels line labels ++ shiftLabels line others :=
  List.map_append

theorem shiftAll_eq (line : Nat) (ls : List Level) : shiftAll line ls = ls.map (shift line) := by
  induction ls with
  | nil => rfl
  | cons l ls ih => rw [shiftAll, List.map_cons, ih]

mutual

theorem contents_shift (line : Nat) :
    (l : Level) → (l.shift line).contents = shiftLabels line l.contents
  | ⟨_, _, labels, children⟩ => by
    rw [shift, contents, contents, contentsAll_shiftAll line children, shiftLabels_append]

theorem contentsAll_shiftAll (line : Nat) :
    (ls : List Level) → contentsAll (shiftAll line ls) = shiftLabels line (contentsAll ls)
  | [] => rfl
  | l :: ls => by
    rw [shiftAll, contentsAll, contentsAll, contents_shift line l, contentsAll_shiftAll line ls,
      shiftLabels_append]

end

theorem ne_of_mem_shiftLabels {line : Nat} {labels : NatMap Label} :
    ∀ e ∈ shiftLabels line labels, e.1 ≠ line := by
  intro e he
  rw [shiftLabels_eq] at he
  obtain ⟨e, -, rfl⟩ := List.mem_map.1 he
  dsimp only [shiftKey]
  split <;> omega

mutual

theorem contents_insert (line : Nat) (label : Label) :
    (l : Level) → (l.insert line label).contents.Perm ((line, label) :: shiftLabels line l.contents)
  | ⟨start, stop, labels, children⟩ => by
    rw [insert]
    cases hin : insertIn line label children with
    | some nested =>
      have hnested := contentsAll_insertIn line label children nested hin
      dsimp only
      rw [contents, contents, shiftLabels_append]
      exact (hnested.append_left _).trans List.perm_middle
    | none =>
      have hroom := NatMap.insert_perm (@ne_of_mem_shiftLabels line labels) label
      dsimp only
      rw [contents, contents, shiftLabels_append, contentsAll_shiftAll]
      exact hroom.append_right _

theorem contentsAll_insertIn (line : Nat) (label : Label) :
    (ls ls' : List Level) → insertIn line label ls = some ls' →
      (contentsAll ls').Perm ((line, label) :: shiftLabels line (contentsAll ls))
  | [], _, h => by cases h
  | l :: ls, ls', h => by
    rw [insertIn] at h
    split at h
    · cases h
      rw [contentsAll, contentsAll, contentsAll_shiftAll, shiftLabels_append]
      exact (contents_insert line label l).append_right _
    · obtain ⟨rest, hrest, rfl⟩ := Option.map_eq_some_iff.1 h
      have htail := contentsAll_insertIn line label ls rest hrest
      rw [contentsAll, contentsAll, contents_shift, shiftLabels_append]
      exact (htail.append_left _).trans List.perm_middle

end

theorem contentsAll_append (ls ms : List Level) :
    contentsAll (ls ++ ms) = contentsAll ls ++ contentsAll ms := by
  rw [contentsAll_eq, contentsAll_eq, contentsAll_eq, List.flatMap_append]

theorem contentsAll_filter_perm (p : Level → Bool) (ls : List Level) :
    (contentsAll (ls.filter p) ++ contentsAll (ls.filter (not ∘ p))).Perm (contentsAll ls) := by
  rw [← contentsAll_append, contentsAll_eq, contentsAll_eq]
  exact (List.filter_append_perm p ls).flatMap_right contents

theorem contents_wrap (start stop : Nat) (l : Level) :
    (wrap start stop l).contents.Perm l.contents := by
  obtain ⟨start', stop', labels, children⟩ := l
  have hsplit : ∀ ls : List Level, contentsAll ls =
      contentsAll (ls.takeWhile (·.start < start)) ++ contentsAll (ls.dropWhile (·.start < start)) :=
    fun ls => by rw [← contentsAll_append, List.takeWhile_append_dropWhile]
  have hlabels : (labels.filter _ ++ labels.filter (not ∘ _)).Perm labels := List.filter_append_perm
    (fun e : Nat × Label => decide (start ≤ e.1) && decide (e.1 < stop)) labels
  have hchildren := contentsAll_filter_perm (·.isWithin start stop) children
  rw [hsplit (children.filter (not ∘ _))] at hchildren
  rw [List.perm_iff_count] at hlabels hchildren ⊢
  intro e
  have hlabel := hlabels e
  have hchild := hchildren e
  simp only [wrap, List.partition_eq_filter_filter, contents, contentsAll_append, contentsAll,
    List.count_append] at hlabel hchild ⊢
  omega

mutual

theorem contents_nest (start stop : Nat) (isRoot : Bool) :
    (l l' : Level) → l.nest? start stop isRoot = some l' → l'.contents.Perm l.contents
  | ⟨start', stop', labels, children⟩, l', h => by
    rw [nest?] at h
    cases hin : nestIn? start stop children with
    | some nested =>
      rw [hin] at h
      obtain ⟨children', rfl, rfl⟩ := Option.map_eq_some_iff.1 h
      rw [contents, contents]
      exact (contentsAll_nestIn start stop children children' hin).append_left _
    | none =>
      rw [hin] at h
      dsimp only at h
      split at h
      · cases h
        exact contents_wrap start stop ⟨start', stop', labels, children⟩
      · cases h

theorem contentsAll_nestIn (start stop : Nat) :
    (ls ls' : List Level) → nestIn? start stop ls = some (some ls') →
      (contentsAll ls').Perm (contentsAll ls)
  | [], _, h => by cases h
  | l :: ls, ls', h => by
    rw [nestIn?] at h
    split at h
    · obtain ⟨l', hl', rfl⟩ := Option.map_eq_some_iff.1 (Option.some.inj h)
      rw [contentsAll, contentsAll]
      exact (contents_nest start stop false l l' hl').append_right _
    · obtain ⟨rest, hrest, hls⟩ := Option.map_eq_some_iff.1 h
      obtain ⟨ls'', rfl, rfl⟩ := Option.map_eq_some_iff.1 hls
      rw [contentsAll, contentsAll]
      exact (contentsAll_nestIn start stop ls ls'' hrest).append_left _

end

end Level
end Disassembly
