import Disassembly.Proofs.Line.Previews

/-! # The grammar of previews

A preview shows the longest run of text at the front of some bytes. Text is made of printable
characters, and a single NUL may stand behind each of them. The scan for a preview goes over that run
byte by byte, and knows of what came before only whether a NUL may follow.
-/

namespace Disassembly

/-- Bytes that are text; `skip` tells whether a NUL may come first. -/
structure IsTextual (skip : Bool) (p : List UInt8) : Prop where
  textual : ∀ b ∈ p, b = 0 ∨ 0x20 ≤ b ∧ b ≤ 0x7e
  head : p.head? = some 0 → skip = true
  single : ¬ [0, 0] <:+: p

/-- `p` is the longest run of text at the front of `bytes`. A NUL may not come first. -/
structure IsLongestText (bytes p : List UInt8) : Prop where
  front : p <+: bytes
  textual : IsTextual false p
  longest : ∀ q, q <+: bytes → IsTextual false q → q.length ≤ p.length

def charactersOf (bytes : List UInt8) : List Char :=
  (bytes.filter (· ≠ 0)).map fun b => Char.ofNat b.toNat

/-- What is shown of `text`: nothing of no text, all of it if it is no longer than `limit`, and else
the front of it and an ellipsis. -/
inductive IsPreview (limit : Nat) : List Char → Option String → Prop where
  | nothing : IsPreview limit [] none
  | whole {text : List Char} (hne : text ≠ []) (hshort : text.length ≤ limit) :
    IsPreview limit text (some (String.ofList (['"'] ++ text ++ ['"'])))
  | cut {text : List Char} (hlong : limit < text.length) :
    IsPreview limit text
      (some (String.ofList (['"'] ++ text.take limit ++ ['.', '.', '.'] ++ ['"'])))

/-- The bytes that the scan goes over. -/
def scanned (skip : Bool) : List UInt8 → List UInt8
  | [] => []
  | b :: bs =>
    if isPrintable b then b :: scanned true bs
    else if b = 0 ∧ skip then b :: scanned false bs
    else []

theorem isPrintable_iff {b : UInt8} : isPrintable b = true ↔ 0x20 ≤ b ∧ b ≤ 0x7e := by
  simp [isPrintable]

theorem ne_zero_of_isPrintable {b : UInt8} (h : isPrintable b = true) : b ≠ 0 := by
  rintro rfl
  cases h

section Text

variable {skip : Bool} {b : UInt8} {bytes p : List UInt8}

theorem isTextual_nil : IsTextual skip [] where
  textual _ hb := absurd hb List.not_mem_nil
  head h := nomatch h
  single h := nomatch List.infix_nil.1 h

/-- A byte in front of a run makes two NULs in a row exactly if it is one and the run begins with one.
-/
theorem two_nuls_cons_iff :
    [0, 0] <:+: b :: p ↔ (b = 0 ∧ p.head? = some 0) ∨ [0, 0] <:+: p := by
  have hhead : [0] <+: p ↔ p.head? = some 0 := by
    cases p <;> simp [List.cons_prefix_cons, eq_comm]
  rw [List.infix_cons_iff, List.cons_prefix_cons, hhead, eq_comm (a := (0 : UInt8))]

theorem isTextual_cons :
    IsTextual skip (b :: p) ↔
      (isPrintable b = true ∧ IsTextual true p) ∨ (b = 0 ∧ skip = true ∧ IsTextual false p) := by
  constructor
  · intro h
    obtain ⟨hpair, hsingle⟩ := not_or.1 (mt two_nuls_cons_iff.2 h.single)
    have hrest : ∀ c ∈ p, c = 0 ∨ 0x20 ≤ c ∧ c ≤ 0x7e := fun c hc =>
      h.textual c (List.mem_cons_of_mem b hc)
    rcases h.textual b List.mem_cons_self with rfl | hb
    · exact .inr ⟨rfl, h.head rfl, hrest, fun hhead => absurd ⟨rfl, hhead⟩ hpair, hsingle⟩
    · exact .inl ⟨isPrintable_iff.2 hb, hrest, fun _ => rfl, hsingle⟩
  · rintro (⟨hb, hp⟩ | ⟨rfl, rfl, hp⟩)
    · have hne := ne_zero_of_isPrintable hb
      refine ⟨?_, fun hhead => absurd (Option.some.inj hhead) hne, ?_⟩
      · exact List.forall_mem_cons.2 ⟨.inr (isPrintable_iff.1 hb), hp.textual⟩
      · exact mt two_nuls_cons_iff.1 (not_or.2 ⟨fun h => hne h.1, hp.single⟩)
    · refine ⟨List.forall_mem_cons.2 ⟨.inl rfl, hp.textual⟩, fun _ => rfl, ?_⟩
      apply mt two_nuls_cons_iff.1
      exact not_or.2 ⟨fun h => Bool.false_ne_true (hp.head h.2), hp.single⟩

/-- What is read are the characters in what is scanned. -/
theorem stringAt_eq_charactersOf (skip : Bool) (bytes : List UInt8) :
    stringAt skip bytes = charactersOf (scanned skip bytes) := by
  induction bytes generalizing skip with
  | nil => rfl
  | cons b bytes ih =>
    rw [stringAt, scanned]
    split
    · rename_i hb
      rw [ih true, charactersOf, charactersOf,
        List.filter_cons_of_pos (by simpa using ne_zero_of_isPrintable hb), List.map_cons]
    · split
      · rename_i hb
        rw [ih false, charactersOf, charactersOf, List.filter_cons_of_neg (by simp [hb.1])]
      · rfl

theorem scanned_front (skip : Bool) (bytes : List UInt8) : scanned skip bytes <+: bytes := by
  induction bytes generalizing skip with
  | nil => exact List.prefix_refl []
  | cons b bytes ih =>
    rw [scanned]
    split
    · exact List.cons_prefix_cons.2 ⟨rfl, ih true⟩
    · split
      · exact List.cons_prefix_cons.2 ⟨rfl, ih false⟩
      · exact List.nil_prefix

theorem isTextual_scanned (skip : Bool) (bytes : List UInt8) :
    IsTextual skip (scanned skip bytes) := by
  induction bytes generalizing skip with
  | nil => exact isTextual_nil
  | cons b bytes ih =>
    rw [scanned]
    split
    · rename_i hb
      exact isTextual_cons.2 (.inl ⟨hb, ih true⟩)
    · split
      · rename_i hb
        exact isTextual_cons.2 (.inr ⟨hb.1, hb.2, ih false⟩)
      · exact isTextual_nil

theorem front_scanned {q : List UInt8} (hfront : q <+: bytes) (hq : IsTextual skip q) :
    q <+: scanned skip bytes := by
  induction bytes generalizing skip q with
  | nil => exact hfront
  | cons b bytes ih =>
    cases q with
    | nil => exact List.nil_prefix
    | cons c q =>
      obtain ⟨rfl, hrest⟩ := List.cons_prefix_cons.1 hfront
      rw [scanned]
      rcases isTextual_cons.1 hq with ⟨hc, htail⟩ | ⟨rfl, rfl, htail⟩
      · rw [if_pos hc]
        exact List.cons_prefix_cons.2 ⟨rfl, ih hrest htail⟩
      · rw [if_neg (by decide), if_pos ⟨rfl, rfl⟩]
        exact List.cons_prefix_cons.2 ⟨rfl, ih hrest htail⟩

theorem scanned_isLongestText (bytes : List UInt8) : IsLongestText bytes (scanned false bytes) where
  front := scanned_front false bytes
  textual := isTextual_scanned false bytes
  longest _ hfront hq := (front_scanned hfront hq).length_le

theorem isPreview_stringAt (bytes : List UInt8) (limit : Nat) :
    IsPreview limit (stringAt false bytes) (stringPreview? bytes limit) := by
  by_cases htext : stringAt false bytes = []
  · rw [stringPreview?, htext]
    exact .nothing
  · rw [stringPreview?_eq_quoted rfl htext, quoted]
    by_cases hlong : limit < (stringAt false bytes).length
    · rw [if_pos hlong]
      have hcut := IsPreview.cut hlong
      rwa [List.append_assoc (['"']), List.singleton_append] at hcut
    · rw [if_neg hlong]
      exact .whole htext (Nat.le_of_not_lt hlong)

theorem IsPreview.eq_none_iff {limit : Nat} {text : List Char} {shown : Option String}
    (h : IsPreview limit text shown) : shown = none ↔ text = [] := by
  cases h with
  | nothing => simp
  | whole hne _ => simp [hne]
  | cut hlong => simp [List.ne_nil_of_length_pos (Nat.zero_lt_of_lt hlong)]

theorem stringAt_eq_nil_iff :
    stringAt false bytes = [] ↔ ∀ b ∈ bytes.head?, ¬ (0x20 ≤ b ∧ b ≤ 0x7e) := by
  cases bytes with
  | nil => simp [stringAt]
  | cons b bytes =>
    by_cases hb : isPrintable b = true
    · simp [stringAt, hb, ← isPrintable_iff]
    · simp [stringAt, hb, ← isPrintable_iff]

theorem stringPreview?_congr {bytes' : List UInt8} (h : stringAt false bytes = stringAt false bytes')
    (limit : Nat) : stringPreview? bytes limit = stringPreview? bytes' limit := by
  rw [stringPreview?, stringPreview?, h]

theorem length_le_length_wideText (text : List Char) : text.length ≤ (wideText text).length := by
  have hpairs : (text.map fun c => [c.toUInt8, 0].length).sum = text.length * 2 := by
    simp [List.map_const']
  rw [wideText, List.length_append, List.length_flatMap, hpairs]
  omega

theorem stringAt_printable {text : List Char}
    (hprintable : ∀ c ∈ text, 0x20 ≤ c.toNat ∧ c.toNat ≤ 0x7e) (skip : Bool) :
    stringAt skip (text.map Char.toUInt8) = text := by
  induction text generalizing skip with
  | nil => rfl
  | cons c text ih =>
    obtain ⟨hc, hrest⟩ := List.forall_mem_cons.1 hprintable
    rw [List.map_cons, stringAt_cons skip hc, ih hrest true]

/-- The whole of narrow text is read, if all bytes are there. -/
theorem stringAt_narrow {text : List Char}
    (hprintable : ∀ c ∈ text, 0x20 ≤ c.toNat ∧ c.toNat ≤ 0x7e) (more : List UInt8) :
    stringAt false (narrowText text ++ more) = text := by
  have hread := stringAt_narrowText hprintable false (narrowText text ++ more).length more
  have hlength : text.length ≤ (narrowText text ++ more).length := by
    simp [narrowText]
  rwa [List.take_length, List.take_of_length_le hlength] at hread

theorem stringAt_wide {text : List Char}
    (hprintable : ∀ c ∈ text, 0x20 ≤ c.toNat ∧ c.toNat ≤ 0x7e) (more : List UInt8) :
    stringAt false (wideText text ++ more) = text := by
  have hread := stringAt_wideText hprintable false (wideText text ++ more).length more
  have hlength : text.length ≤ (wideText text ++ more).length := by
    rw [List.length_append]
    exact Nat.le_add_right_of_le (length_le_length_wideText text)
  rwa [List.take_of_length_le (by omega), List.take_of_length_le hlength] at hread

end Text

/-- A preview is of the longest run of text at the front of the bytes, and there is none exactly if the
first byte is not printable. The same text is shown alike in one byte for each character and in two,
whatever comes behind it, and on its own. -/
theorem preview_of_longest_text (bytes : List UInt8) (limit : Nat) :
    (∃ p, IsLongestText bytes p ∧ IsPreview limit (charactersOf p) (stringPreview? bytes limit)) ∧
      (stringPreview? bytes limit = none ↔ ∀ b ∈ bytes.head?, ¬ (0x20 ≤ b ∧ b ≤ 0x7e)) ∧
      ∀ text : List Char, (∀ c ∈ text, 0x20 ≤ c.toNat ∧ c.toNat ≤ 0x7e) → ∀ more : List UInt8,
        stringPreview? (narrowText text ++ more) limit =
            stringPreview? (text.map Char.toUInt8) limit ∧
          stringPreview? (wideText text ++ more) limit =
            stringPreview? (text.map Char.toUInt8) limit := by
  have hpreview := isPreview_stringAt bytes limit
  refine ⟨⟨scanned false bytes, scanned_isLongestText bytes, ?_⟩, ?_, ?_⟩
  · rwa [← stringAt_eq_charactersOf]
  · rw [hpreview.eq_none_iff, stringAt_eq_nil_iff]
  · intro text hprintable more
    have hplain := (stringAt_printable hprintable false).symm
    exact ⟨stringPreview?_congr ((stringAt_narrow hprintable more).trans hplain) limit,
      stringPreview?_congr ((stringAt_wide hprintable more).trans hplain) limit⟩

end Disassembly
