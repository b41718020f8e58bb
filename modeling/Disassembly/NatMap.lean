/-! # Maps from numbers

A map from lines or addresses to values is the list of its entries, with the keys decreasing. So a
map has one form only, and a new key goes in front at once when keys come in their order, as lines
mostly do.
-/

namespace Disassembly

/-- Values by number, the numbers decreasing. -/
abbrev NatMap (α : Type) := List (Nat × α)

namespace NatMap

variable {α : Type}

def get? (key : Nat) : NatMap α → Option α
  | [] => none
  | (k, v) :: m => if k = key then some v else get? key m

def contains (key : Nat) (m : NatMap α) : Bool :=
  (get? key m).isSome

def insert (key : Nat) (v : α) : NatMap α → NatMap α
  | [] => [(key, v)]
  | (k, u) :: m =>
    if k < key then (key, v) :: (k, u) :: m
    else if key = k then (key, v) :: m
    else (k, u) :: insert key v m

def entries (m : NatMap α) : List (Nat × α) :=
  m.reverse

theorem get?_insert (key other : Nat) (v : α) (m : NatMap α) :
    get? other (insert key v m) = if other = key then some v else get? other m := by
  induction m with
  | nil => by_cases h : key = other <;> simp [insert, get?, h, eq_comm]
  | cons e m ih =>
    obtain ⟨k, u⟩ := e
    simp only [insert]
    split
    · by_cases h : key = other <;> simp [get?, h, eq_comm]
    · split
      · rename_i hk
        subst hk
        by_cases h : key = other <;> simp [get?, h, eq_comm]
      · by_cases hk : k = other
        · subst hk
          rename_i hne
          simp [get?, Ne.symm hne]
        · simp [get?, hk, ih]

theorem insert_insert (key : Nat) (u v : α) (m : NatMap α) :
    insert key v (insert key u m) = insert key v m := by
  induction m with
  | nil => simp [insert]
  | cons e m ih =>
    obtain ⟨k, t⟩ := e
    by_cases hlt : k < key
    · simp [insert, hlt]
    · by_cases heq : key = k
      · simp [insert, heq]
      · simp [insert, hlt, heq, ih]

end NatMap
end Disassembly
