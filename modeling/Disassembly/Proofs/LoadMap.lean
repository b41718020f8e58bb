import Disassembly.Proofs.Words
import Disassembly.Symbols
import Mathlib.Order.Interval.Set.Basic

/-! # Loaded regions

Each byte of a region has a place in the file and an address. A value of either kind is translated by
the first region that has it, so translating back finds the same region only if no region in front of
it has the result. Regions that do not overlap in one kind of value therefore undo what gives values of
that kind, and the order of the regions does not matter where they are looked up by it.
-/

namespace Disassembly

namespace Region

def addresses (r : Region) : Set Nat :=
  Set.Ico r.address (r.address + r.length)

def offsets (r : Region) : Set Nat :=
  Set.Ico r.fileOffset (r.fileOffset + r.length)

/-- A byte of the region is at `offset` in the file, and is loaded at `address`. -/
def Links (r : Region) (address offset : Nat) : Prop :=
  ∃ k < r.length, address = r.address + k ∧ offset = r.fileOffset + k

/-- The region with addresses for file offsets, and the other way round. -/
def flip (r : Region) : Region where
  fileOffset := r.address
  address := r.fileOffset
  length := r.length

/-- No two of the regions have a value in common. -/
def ApartIn (range : Region → Set Nat) (rs : List Region) : Prop :=
  rs.Pairwise fun r s => ∀ x ∈ range r, x ∉ range s

variable {r : Region} {address offset : Nat}

theorem flip_links : r.flip.Links offset address ↔ r.Links address offset :=
  exists_congr fun _ => and_congr_right fun _ => and_comm

theorem mem_addresses_iff : address ∈ r.addresses ↔ ∃ offset, r.Links address offset := by
  constructor
  · rintro ⟨hle, hlt⟩
    exact ⟨r.fileOffset + (address - r.address), address - r.address, by omega, by omega, rfl⟩
  · rintro ⟨_, k, hk, rfl, -⟩
    exact ⟨Nat.le_add_right _ k, Nat.add_lt_add_left hk _⟩

theorem Links.mem_addresses (h : r.Links address offset) : address ∈ r.addresses :=
  mem_addresses_iff.2 ⟨offset, h⟩

theorem Links.mem_offsets (h : r.Links address offset) : offset ∈ r.offsets :=
  (flip_links.2 h).mem_addresses

theorem toFile?_eq_some_iff : r.toFile? address = some offset ↔ r.Links address offset := by
  rw [toFile?, Option.ite_none_right_eq_some, Option.some.injEq]
  constructor
  · rintro ⟨⟨hle, hlt⟩, rfl⟩
    exact ⟨address - r.address, hlt, by omega, rfl⟩
  · rintro ⟨k, hk, rfl, rfl⟩
    exact ⟨⟨Nat.le_add_right _ k, by omega⟩, by omega⟩

theorem toFile?_eq_none_iff : r.toFile? address = none ↔ address ∉ r.addresses := by
  simp only [mem_addresses_iff, ← toFile?_eq_some_iff, ← Option.isSome_iff_exists,
    Bool.not_eq_true, Option.isSome_eq_false_iff, Option.isNone_iff_eq_none]

/-- Among regions that do not overlap, the first that has a value is the only one. -/
theorem ApartIn.not_mem_before {range : Region → Set Nat} {before after : List Region} {x : Nat}
    (h : ApartIn range (before ++ r :: after)) (hx : x ∈ range r) :
    ∀ s ∈ before, x ∉ range s := by
  intro s hs hxs
  exact (List.pairwise_append.1 h).2.2 s hs r List.mem_cons_self x hxs hx

theorem ApartIn.perm {range : Region → Set Nat} {rs rs' : List Region} (h : ApartIn range rs)
    (hperm : rs.Perm rs') : ApartIn range rs' :=
  hperm.pairwise h fun hrs x hs hr => hrs x hr hs

end Region

namespace LoadMap

open Region

variable {rs rs' : List Region} {address offset : Nat}

theorem fromFile?_regions (rs : List Region) (offset : Nat) :
    (regions rs).fromFile? offset = (regions (rs.map flip)).toFile? offset := by
  rw [toFile?, List.findSome?_map]
  rfl

theorem apartIn_flip : ApartIn addresses (rs.map flip) ↔ ApartIn offsets rs :=
  List.pairwise_map

/-- The first region that has an address decides what is behind it. -/
theorem toFile?_eq_some_iff :
    (regions rs).toFile? address = some offset ↔ ∃ before r after, rs = before ++ r :: after ∧
      r.Links address offset ∧ ∀ s ∈ before, address ∉ s.addresses := by
  simp only [toFile?, List.findSome?_eq_some_iff, Region.toFile?_eq_some_iff, toFile?_eq_none_iff]

theorem fromFile?_eq_some_iff :
    (regions rs).fromFile? offset = some address ↔ ∃ before r after, rs = before ++ r :: after ∧
      r.Links address offset ∧ ∀ s ∈ before, offset ∉ s.offsets := by
  have hnone (s : Region) : s.fromFile? offset = none ↔ offset ∉ s.offsets :=
    toFile?_eq_none_iff (r := s.flip)
  have hsome (s : Region) : s.fromFile? offset = some address ↔ s.Links address offset :=
    (Region.toFile?_eq_some_iff (r := s.flip)).trans flip_links
  simp only [fromFile?, List.findSome?_eq_some_iff, hsome, hnone]

theorem isSome_toFile? :
    ((regions rs).toFile? address).isSome ↔ ∃ r ∈ rs, address ∈ r.addresses := by
  rw [toFile?, List.findSome?_isSome_iff]
  simp only [mem_addresses_iff, Option.isSome_iff_exists, Region.toFile?_eq_some_iff]

theorem isSome_fromFile? :
    ((regions rs).fromFile? offset).isSome ↔ ∃ r ∈ rs, offset ∈ r.offsets := by
  rw [fromFile?_regions, isSome_toFile?]
  simp only [List.mem_map, exists_exists_and_eq_and]
  rfl

/-- Where regions do not overlap in the file, going to the file can be undone. -/
theorem fromFile?_of_toFile? (hapart : ApartIn offsets rs)
    (h : (regions rs).toFile? address = some offset) :
    (regions rs).fromFile? offset = some address := by
  obtain ⟨before, r, after, rfl, hlinks, -⟩ := toFile?_eq_some_iff.1 h
  exact fromFile?_eq_some_iff.2
    ⟨before, r, after, rfl, hlinks, hapart.not_mem_before hlinks.mem_offsets⟩

/-- Where addresses do not overlap, going to the address can be undone. -/
theorem toFile?_of_fromFile? (hapart : ApartIn addresses rs)
    (h : (regions rs).fromFile? offset = some address) :
    (regions rs).toFile? address = some offset := by
  obtain ⟨before, r, after, rfl, hlinks, -⟩ := fromFile?_eq_some_iff.1 h
  exact toFile?_eq_some_iff.2
    ⟨before, r, after, rfl, hlinks, hapart.not_mem_before hlinks.mem_addresses⟩

theorem toFile?_eq_some_iff_of_apart (hapart : ApartIn addresses rs) :
    (regions rs).toFile? address = some offset ↔ ∃ r ∈ rs, r.Links address offset := by
  rw [toFile?_eq_some_iff]
  constructor
  · rintro ⟨before, r, after, rfl, hlinks, -⟩
    exact ⟨r, List.mem_append_right _ List.mem_cons_self, hlinks⟩
  · rintro ⟨r, hr, hlinks⟩
    obtain ⟨before, after, rfl⟩ := List.append_of_mem hr
    exact ⟨before, r, after, rfl, hlinks, hapart.not_mem_before hlinks.mem_addresses⟩

theorem toFile?_perm (hapart : ApartIn addresses rs) (hperm : rs.Perm rs') (address : Nat) :
    (regions rs').toFile? address = (regions rs).toFile? address := by
  apply Option.ext
  intro offset
  rw [toFile?_eq_some_iff_of_apart hapart, toFile?_eq_some_iff_of_apart (hapart.perm hperm)]
  simp only [hperm.mem_iff]

theorem fromFile?_perm (hapart : ApartIn offsets rs) (hperm : rs.Perm rs') (offset : Nat) :
    (regions rs').fromFile? offset = (regions rs).fromFile? offset := by
  rw [fromFile?_regions, fromFile?_regions]
  exact toFile?_perm (apartIn_flip.2 hapart) (hperm.map flip) offset

/-- A region without bytes is as good as none. -/
theorem toFile?_filter (rs : List Region) (address : Nat) :
    (regions (rs.filter (0 < ·.length))).toFile? address = (regions rs).toFile? address := by
  simp only [toFile?]
  induction rs with
  | nil => rfl
  | cons r rs ih =>
    by_cases hr : 0 < r.length
    · rw [List.filter_cons_of_pos (by simpa using hr), List.findSome?_cons, List.findSome?_cons, ih]
    · have hnone : r.toFile? address = none := if_neg (by omega)
      rw [List.filter_cons_of_neg (by simpa using hr), ih, List.findSome?_cons, hnone]

theorem fromFile?_filter (rs : List Region) (offset : Nat) :
    (regions (rs.filter (0 < ·.length))).fromFile? offset = (regions rs).fromFile? offset := by
  rw [fromFile?_regions, fromFile?_regions, ← toFile?_filter (rs.map flip), List.filter_map]
  rfl

/-- Translating `value` by the regions, which begin at `source` for values of its kind and at `target`
for those of the other, with the sum checked: no answer at all if it has more than 64 bits. -/
def translate? (source target : Region → Nat) (value : Nat) (rs : List Region) :
    Option (Option Nat) :=
  rs.findSomeM? fun r =>
    if source r ≤ value ∧ value - source r < r.length then
      (add? 64 (target r) (value - source r)).map some
    else some none

/-- No sum is too large for a word if the regions end within the range of one. -/
theorem translate?_eq {source target : Region → Nat}
    (hfits : ∀ r ∈ rs, target r + r.length ≤ 2 ^ 64) (value : Nat) :
    translate? source target value rs = some (rs.findSome? fun r =>
      if source r ≤ value ∧ value - source r < r.length then some (target r + (value - source r))
      else none) := by
  rw [translate?]
  induction rs with
  | nil => rfl
  | cons r rs ih =>
    obtain ⟨hr, hrs⟩ := List.forall_mem_cons.1 hfits
    rw [List.findSomeM?_cons, List.findSome?_cons, ih hrs]
    split
    · rw [add?_eq (by omega)]
      rfl
    · rfl

/-- What translating by the regions `rs` comes to, in either direction. -/
structure IsPartialBijection (rs : List Region) : Prop where
  fromFile?_of_toFile? : ApartIn offsets rs → ∀ {address offset},
    (regions rs).toFile? address = some offset → (regions rs).fromFile? offset = some address
  toFile?_of_fromFile? : ApartIn addresses rs → ∀ {address offset},
    (regions rs).fromFile? offset = some address → (regions rs).toFile? address = some offset
  isSome_toFile? : ∀ address,
    ((regions rs).toFile? address).isSome ↔ ∃ r ∈ rs, address ∈ r.addresses
  isSome_fromFile? : ∀ offset,
    ((regions rs).fromFile? offset).isSome ↔ ∃ r ∈ rs, offset ∈ r.offsets
  toFile?_eq_some_iff : ∀ {address offset}, (regions rs).toFile? address = some offset ↔
    ∃ before r after, rs = before ++ r :: after ∧ r.Links address offset ∧
      ∀ s ∈ before, address ∉ s.addresses
  fromFile?_eq_some_iff : ∀ {address offset}, (regions rs).fromFile? offset = some address ↔
    ∃ before r after, rs = before ++ r :: after ∧ r.Links address offset ∧
      ∀ s ∈ before, offset ∉ s.offsets
  translate?_toFile : ∀ address,
    translate? Region.address Region.fileOffset address rs = some ((regions rs).toFile? address)
  translate?_fromFile : ∀ offset,
    translate? Region.fileOffset Region.address offset rs = some ((regions rs).fromFile? offset)
  filter_eq : ∀ value,
    (regions (rs.filter (0 < ·.length))).toFile? value = (regions rs).toFile? value ∧
      (regions (rs.filter (0 < ·.length))).fromFile? value = (regions rs).fromFile? value
  perm_eq : ApartIn offsets rs → ApartIn addresses rs → ∀ {rs'}, rs.Perm rs' → ∀ value,
    (regions rs').toFile? value = (regions rs).toFile? value ∧
      (regions rs').fromFile? value = (regions rs).fromFile? value

/-- Regions that end within the range of a word translate addresses and file offsets into each other;
whichever kind they do not overlap in can be got back from the other. -/
theorem regions_isPartialBijection
    (hfits : ∀ r ∈ rs, r.fileOffset + r.length ≤ 2 ^ 64 ∧ r.address + r.length ≤ 2 ^ 64) :
    IsPartialBijection rs where
  fromFile?_of_toFile? hapart := fromFile?_of_toFile? hapart
  toFile?_of_fromFile? hapart := toFile?_of_fromFile? hapart
  isSome_toFile? _ := isSome_toFile?
  isSome_fromFile? _ := isSome_fromFile?
  toFile?_eq_some_iff := toFile?_eq_some_iff
  fromFile?_eq_some_iff := fromFile?_eq_some_iff
  translate?_toFile := translate?_eq fun r hr => (hfits r hr).1
  translate?_fromFile := translate?_eq fun r hr => (hfits r hr).2
  filter_eq value := ⟨toFile?_filter rs value, fromFile?_filter rs value⟩
  perm_eq hoffsets haddresses _ hperm value :=
    ⟨toFile?_perm haddresses hperm value, fromFile?_perm hoffsets hperm value⟩

def loaded : List Region :=
  [{ fileOffset := 0x400, address := 0x401000, length := 0x1000 },
   { fileOffset := 0x1400, address := 0x403000, length := 0x200 }]

theorem regions_isPartialBijection_loaded :
    (∀ r ∈ loaded, r.fileOffset + r.length ≤ 2 ^ 64 ∧ r.address + r.length ≤ 2 ^ 64) ∧
      ApartIn offsets loaded ∧ ApartIn addresses loaded ∧
      (regions loaded).toFile? 0x403010 = some 0x1410 ∧
      (regions loaded).fromFile? 0x1410 = some 0x403010 ∧
      (regions loaded.reverse).toFile? 0x403010 = some 0x1410 ∧
      (regions loaded).toFile? 0x402000 = none := by
  have hfits : ∀ r ∈ loaded, r.fileOffset + r.length ≤ 2 ^ 64 ∧ r.address + r.length ≤ 2 ^ 64 := by
    decide
  have hoffsets : ApartIn offsets loaded := by
    simp [ApartIn, offsets, loaded]
    omega
  have haddresses : ApartIn addresses loaded := by
    simp [ApartIn, addresses, loaded]
    omega
  have hfound : (regions loaded).toFile? 0x403010 = some 0x1410 := by decide
  have h := regions_isPartialBijection hfits
  have hreverse := (h.perm_eq hoffsets haddresses (List.reverse_perm loaded).symm 0x403010).1
  exact ⟨hfits, hoffsets, haddresses, hfound, h.fromFile?_of_toFile? hoffsets hfound,
    hreverse.trans hfound, by decide⟩

end LoadMap
end Disassembly
