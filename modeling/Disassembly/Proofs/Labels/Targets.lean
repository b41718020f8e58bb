import Disassembly.Labels
import Disassembly.Proofs.Text.Numeral

/-! # What is labelled

Targets are collected with all the reasons for which they are labelled, sorted, and thinned out to
one for each address. What comes out is said here address by address: the entry and the literal
targets of calls and jumps, as far as the index covers them, each with the first reason that applies.
-/

namespace Disassembly

def LabelReason.Applies (z : Zone) (is : List Instruction) (address : Nat) : LabelReason → Prop
  | .entry => address = z.entry
  | .call => ∃ i ∈ is, i.flow = .call ∧ i.literal? z.arch = some address
  | .jump => ∃ i ∈ is, i.flow = .jump ∧ i.literal? z.arch = some address

namespace Zone

/-- Whether `address` is to be labelled: it is covered, and it is the entry or the literal target of
a call or jump. -/
def IsTarget (z : Zone) (index : Index) (is : List Instruction) (address : Nat) : Prop :=
  index.covers address = true ∧
    (address = z.entry ∨ ∃ i ∈ is, i.branchTarget? z.arch = some address)

instance (z : Zone) (index : Index) (is : List Instruction) (address : Nat) :
    Decidable (z.IsTarget index is address) :=
  inferInstanceAs (Decidable (_ ∧ (_ ∨ _)))

def targetAddresses (z : Zone) (index : Index) (is : List Instruction) : List Nat :=
  (List.range' index.trueStart (index.codeEnd - index.trueStart)).filter
    fun address => z.IsTarget index is address

theorem mem_targetAddresses_iff {z : Zone} {index : Index} {is : List Instruction}
    {address : Nat} : address ∈ z.targetAddresses index is ↔ z.IsTarget index is address := by
  rw [targetAddresses, List.mem_filter, List.mem_range'_1, decide_eq_true_eq, and_iff_right_iff_imp]
  rintro ⟨hcovers, -⟩
  rw [Index.covers, Bool.and_eq_true, decide_eq_true_eq, decide_eq_true_eq] at hcovers
  omega

theorem targetAddresses_pairwise (z : Zone) (index : Index) (is : List Instruction) :
    (z.targetAddresses index is).Pairwise (· < ·) :=
  List.Pairwise.filter _ List.pairwise_lt_range'

def reasonFor (z : Zone) (is : List Instruction) (address : Nat) : LabelReason :=
  if address = z.entry then .entry
  else if ∃ i ∈ is, i.flow = .call ∧ i.literal? z.arch = some address then .call
  else .jump

def labelAt (z : Zone) (is : List Instruction) (address : Nat) : Label where
  name := if address = z.entry then "EntryPoint"
    else if ∃ i ∈ is, i.flow = .call ∧ i.literal? z.arch = some address then
      Text.label "sub_0x" address
    else Text.label "offset_0x" address
  address := address

end Zone

namespace LabelReason

theorem rank_injective {r r' : LabelReason} (h : r.rank = r'.rank) : r = r' := by
  cases r <;> cases r' <;> first | rfl | cases h

theorem ofFlow?_eq_some_iff {flow : Flow} {r : LabelReason} :
    ofFlow? flow = some r ↔ r = .call ∧ flow = .call ∨ r = .jump ∧ flow = .jump := by
  cases flow <;> cases r <;> simp [ofFlow?]

variable {z : Zone} {is : List Instruction} {address : Nat}

theorem exists_branchTarget_iff :
    (∃ i ∈ is, i.branchTarget? z.arch = some address) ↔
      Applies z is address .call ∨ Applies z is address .jump := by
  simp only [Applies, ← exists_or, ← and_or_left, ← or_and_right]
  refine exists_congr fun i => and_congr_right fun _ => ?_
  rw [Instruction.branchTarget?]
  cases i.flow <;> simp [Flow.isBranch]

/-- Where there is a reason, the first one applies, and no other one comes before it. -/
theorem eq_reasonFor_iff {r : LabelReason}
    (h : address = z.entry ∨ ∃ i ∈ is, i.branchTarget? z.arch = some address) :
    r = z.reasonFor is address ↔
      Applies z is address r ∧ ∀ r', Applies z is address r' → r.rank ≤ r'.rank := by
  rw [exists_branchTarget_iff] at h
  have hfirst : Applies z is address (z.reasonFor is address) ∧
      ∀ r', Applies z is address r' → (z.reasonFor is address).rank ≤ r'.rank := by
    unfold Zone.reasonFor
    split
    · rename_i hentry
      exact ⟨hentry, fun r' _ => Nat.zero_le _⟩
    · rename_i hentry
      split
      · rename_i hcall
        refine ⟨hcall, fun r' hr' => ?_⟩
        cases r' with
        | entry => exact absurd hr' hentry
        | call | jump => decide
      · rename_i hcall
        refine ⟨(h.resolve_left hentry).resolve_left hcall, fun r' hr' => ?_⟩
        cases r' with
        | entry => exact absurd hr' hentry
        | call => exact absurd hr' hcall
        | jump => exact Nat.le_refl _
  constructor
  · rintro rfl
    exact hfirst
  · rintro ⟨hr, hle⟩
    exact rank_injective (Nat.le_antisymm (hle _ hfirst.1) (hfirst.2 r hr))

theorem eq_of_nameFor_eq {r r' : LabelReason} {a b : Nat} (h : r.nameFor a = r'.nameFor b) :
    r = r' := by
  have hhead := congrArg (·.toList.head?) h
  cases r <;> cases r' <;>
    first | rfl | simp [nameFor, Text.label, String.toList_append] at hhead

theorem nameFor_injective {r : LabelReason} (hr : r ≠ .entry) {a b : Nat}
    (h : r.nameFor a = r.nameFor b) : a = b := by
  cases r with
  | entry => exact absurd rfl hr
  | call | jump => exact Text.label_injective h

end LabelReason

namespace LabelTarget

section Order

theorem le_iff {a b : LabelTarget} : a.le b = true ↔
    a.address < b.address ∨ a.address = b.address ∧ a.reason.rank ≤ b.reason.rank := by
  simp [le]

theorem le_refl (a : LabelTarget) : a.le a = true :=
  le_iff.2 (.inr ⟨rfl, Nat.le_refl _⟩)

theorem le_trans (a b c : LabelTarget) (hab : a.le b = true) (hbc : b.le c = true) :
    a.le c = true := by
  rw [le_iff] at hab hbc ⊢
  omega

theorem le_total (a b : LabelTarget) : (a.le b || b.le a) = true := by
  rw [Bool.or_eq_true, le_iff, le_iff]
  omega

theorem le_antisymm {a b : LabelTarget} (hab : a.le b = true) (hba : b.le a = true) : a = b := by
  rw [le_iff] at hab hba
  obtain ⟨address, reason⟩ := a
  obtain ⟨address', reason'⟩ := b
  dsimp only at hab hba
  obtain rfl : address = address' := by omega
  obtain rfl : reason = reason' := LabelReason.rank_injective (by omega)
  rfl

end Order

section Dedup

variable {ts : List LabelTarget}

theorem address_lt_of_ne {a b : LabelTarget}
    (h : (a :: b :: ts).Pairwise fun a b => a.le b = true) (hne : a.address ≠ b.address)
    {u : LabelTarget} (hu : u ∈ b :: ts) : a.address < u.address := by
  have hab := le_iff.1 (List.rel_of_pairwise_cons h (List.mem_cons_self (a := b)))
  rcases List.mem_cons.1 hu with rfl | hu
  · omega
  · have hbu := le_iff.1 (List.rel_of_pairwise_cons h.of_cons hu)
    omega

theorem mem_dedup_iff (h : ts.Pairwise fun a b => a.le b = true) {t : LabelTarget} :
    t ∈ dedup ts ↔ t ∈ ts ∧ ∀ u ∈ ts, u.address = t.address → t.le u = true := by
  fun_induction dedup ts with
  | case1 a b ts heq ih =>
    -- `b` is dropped, and `a` is never above it at their address
    have hab : a.le b = true := List.rel_of_pairwise_cons h List.mem_cons_self
    have hrest : (a :: ts).Pairwise fun a b => a.le b = true :=
      h.sublist ((List.sublist_cons_self b ts).cons_cons a)
    simp only [ih hrest, List.mem_cons, forall_eq_or_imp]
    constructor
    · rintro ⟨ht, hmina, hmin⟩
      refine ⟨ht.imp_right .inr, hmina, fun hb => ?_, hmin⟩
      exact le_trans t a b (hmina (heq.trans hb)) hab
    · rintro ⟨ht, hmina, -, hmin⟩
      refine ⟨?_, hmina, hmin⟩
      rcases ht with rfl | rfl | ht
      · exact .inl rfl
      · exact .inl (le_antisymm hab (hmina heq)).symm
      · exact .inr ht
  | case2 a b ts hne ih =>
    rw [List.mem_cons, ih h.of_cons]
    constructor
    · rintro (rfl | ⟨ht, hmin⟩)
      · refine ⟨List.mem_cons_self, List.forall_mem_cons.2 ⟨fun _ => le_refl t, fun u hu _ => ?_⟩⟩
        exact List.rel_of_pairwise_cons h hu
      · refine ⟨List.mem_cons_of_mem a ht, List.forall_mem_cons.2 ⟨fun haddress => ?_, hmin⟩⟩
        exact absurd haddress (Nat.ne_of_lt (address_lt_of_ne h hne ht))
    · rintro ⟨ht, hmin⟩
      rcases List.mem_cons.1 ht with rfl | ht
      · exact .inl rfl
      · exact .inr ⟨ht, fun u hu => hmin u (List.mem_cons_of_mem a hu)⟩
  | case3 ts hshort =>
    rcases ts with _ | ⟨a, _ | ⟨b, ts⟩⟩
    · simp
    · simp only [List.mem_singleton, forall_eq, iff_self_and]
      rintro rfl -
      exact le_refl t
    · exact absurd rfl (hshort a b ts)

theorem dedup_pairwise (h : ts.Pairwise fun a b => a.le b = true) :
    (dedup ts).Pairwise (·.address < ·.address) := by
  fun_induction dedup ts with
  | case1 a b ts heq ih => exact ih (h.sublist ((List.sublist_cons_self b ts).cons_cons a))
  | case2 a b ts hne ih =>
    refine List.pairwise_cons.2 ⟨fun u hu => ?_, ih h.of_cons⟩
    exact address_lt_of_ne h hne ((mem_dedup_iff h.of_cons).1 hu).1
  | case3 ts hshort =>
    rcases ts with _ | ⟨a, _ | ⟨b, ts⟩⟩
    · exact List.Pairwise.nil
    · exact List.pairwise_singleton _ a
    · exact absurd rfl (hshort a b ts)

end Dedup

section Collect

variable {z : Zone} {index : Index} {is : List Instruction}

def candidates (z : Zone) (index : Index) (is : List Instruction) : List LabelTarget :=
  (if index.covers z.entry then [{ address := z.entry, reason := .entry }] else []) ++
    is.filterMap (ofInstruction? z.arch index)

theorem ofInstruction?_eq_some_iff {arch : Arch} {i : Instruction} {t : LabelTarget} :
    ofInstruction? arch index i = some t ↔ LabelReason.ofFlow? i.flow = some t.reason ∧
      i.literal? arch = some t.address ∧ index.covers t.address = true := by
  obtain ⟨address, reason⟩ := t
  unfold ofInstruction?
  cases LabelReason.ofFlow? i.flow <;> cases i.literal? arch <;> simp
  grind

theorem mem_candidates_iff {t : LabelTarget} :
    t ∈ candidates z index is ↔
      index.covers t.address = true ∧ LabelReason.Applies z is t.address t.reason := by
  obtain ⟨address, reason⟩ := t
  have hbranch : (∃ i ∈ is, ofInstruction? z.arch index i = some { address, reason }) ↔
      index.covers address = true ∧
        ∃ i ∈ is, LabelReason.ofFlow? i.flow = some reason ∧ i.literal? z.arch = some address := by
    simp only [ofInstruction?_eq_some_iff]
    grind
  rw [candidates, List.mem_append, List.mem_filterMap, hbranch]
  simp only [LabelReason.ofFlow?_eq_some_iff]
  cases reason with
  | entry =>
    simp only [LabelReason.Applies, reduceCtorEq, false_and, or_self, and_false, exists_false,
      or_false]
    split
    · rename_i hcovers
      simp only [List.mem_singleton, LabelTarget.mk.injEq, and_true]
      exact ⟨fun h => ⟨h ▸ hcovers, h⟩, fun h => h.2⟩
    · rename_i hcovers
      simp only [List.not_mem_nil, false_iff]
      exact fun h => hcovers (h.2 ▸ h.1)
  | call | jump =>
    have hentry : ∀ r : LabelReason, r ≠ .entry → ({ address, reason := r } : LabelTarget) ∉
        if index.covers z.entry then [{ address := z.entry, reason := .entry }] else [] := by
      intro r hr hmem
      split at hmem <;> simp_all
    simp [LabelReason.Applies, hentry]

/-- What is labelled, with the reason for it. -/
theorem mem_collect_iff {t : LabelTarget} :
    t ∈ collect z index is ↔
      z.IsTarget index is t.address ∧ t.reason = z.reasonFor is t.address := by
  have hsorted : ((candidates z index is).mergeSort le).Pairwise fun a b => a.le b = true :=
    List.pairwise_mergeSort le_trans le_total _
  rw [show collect z index is = dedup ((candidates z index is).mergeSort le) from rfl,
    mem_dedup_iff hsorted]
  simp only [List.mem_mergeSort, mem_candidates_iff, Zone.IsTarget]
  constructor
  · rintro ⟨⟨hcovers, happlies⟩, hmin⟩
    have htarget : t.address = z.entry ∨ ∃ i ∈ is, i.branchTarget? z.arch = some t.address := by
      rw [LabelReason.exists_branchTarget_iff]
      cases hr : t.reason with
      | entry => exact .inl (by simpa [hr, LabelReason.Applies] using happlies)
      | call => exact .inr (.inl (hr ▸ happlies))
      | jump => exact .inr (.inr (hr ▸ happlies))
    refine ⟨⟨hcovers, htarget⟩, (LabelReason.eq_reasonFor_iff htarget).2 ⟨happlies, fun r hr => ?_⟩⟩
    have hle := le_iff.1 (hmin { address := t.address, reason := r } ⟨hcovers, hr⟩ rfl)
    dsimp only at hle
    omega
  · rintro ⟨⟨hcovers, htarget⟩, hreason⟩
    obtain ⟨happlies, hmin⟩ := (LabelReason.eq_reasonFor_iff htarget).1 hreason
    refine ⟨⟨hcovers, happlies⟩, fun u ⟨_, hu⟩ haddress => le_iff.2 (.inr ⟨haddress.symm, ?_⟩)⟩
    exact hmin u.reason (haddress ▸ hu)

theorem covers_of_mem_collect {t : LabelTarget} (h : t ∈ collect z index is) :
    index.covers t.address = true :=
  (mem_collect_iff.1 h).1.1

theorem collect_pairwise : (collect z index is).Pairwise (·.address < ·.address) :=
  dedup_pairwise (List.pairwise_mergeSort le_trans le_total _)

/-- Collecting gives each address that is to be labelled, once and in order. -/
theorem collect_eq_map (z : Zone) (index : Index) (is : List Instruction) :
    collect z index is = (z.targetAddresses index is).map
      fun address => { address, reason := z.reasonFor is address } := by
  have hleft := @collect_pairwise z index is
  have hright : ((z.targetAddresses index is).map
      fun address => ({ address, reason := z.reasonFor is address } : LabelTarget)).Pairwise
        (·.address < ·.address) :=
    List.pairwise_map.2 (z.targetAddresses_pairwise index is)
  have hnodup : ∀ {ts : List LabelTarget}, ts.Pairwise (·.address < ·.address) → ts.Nodup :=
    fun h => h.imp fun hlt heq => Nat.ne_of_lt hlt (congrArg LabelTarget.address heq)
  refine List.Perm.eq_of_pairwise (fun a b _ _ hab hba => ?_) hleft hright
    ((List.perm_ext_iff_of_nodup (hnodup hleft) (hnodup hright)).2 fun t => ?_)
  · exact absurd hba (Nat.lt_asymm hab)
  · simp only [mem_collect_iff, List.mem_map, Zone.mem_targetAddresses_iff]
    constructor
    · rintro ⟨htarget, hreason⟩
      exact ⟨t.address, htarget, by rw [← hreason]⟩
    · rintro ⟨address, htarget, rfl⟩
      exact ⟨htarget, rfl⟩

end Collect

end LabelTarget

namespace Zone

variable {z : Zone} {is : List Instruction}

theorem nameFor_reasonFor (z : Zone) (is : List Instruction) (address : Nat) :
    (z.reasonFor is address).nameFor address = (z.labelAt is address).name := by
  unfold reasonFor labelAt
  split
  · rfl
  · split <;> rfl

theorem labelAt_name_injective {a b : Nat} (h : (z.labelAt is a).name = (z.labelAt is b).name) :
    a = b := by
  rw [← nameFor_reasonFor, ← nameFor_reasonFor] at h
  have hreason := LabelReason.eq_of_nameFor_eq h
  by_cases ha : a = z.entry
  · have hb : z.reasonFor is b = .entry := by rw [← hreason, reasonFor, if_pos ha]
    unfold reasonFor at hb
    split at hb
    · rename_i hentry
      exact ha.trans hentry.symm
    · split at hb <;> cases hb
  · refine LabelReason.nameFor_injective (r := z.reasonFor is a) ?_ (hreason ▸ h)
    unfold reasonFor
    rw [if_neg ha]
    split <;> decide

end Zone
end Disassembly
