import Disassembly.Line.Enrich
import Disassembly.Proofs.Faults

/-! # Previews of narrow and wide text

A pushed address may be that of text in one byte for each character or in two. Both are read through
the same number of bytes, twice the length of a preview. That is more than is shown of narrow text,
but of wide text it is no more than is shown: so it cannot be told whether wide text goes on.
-/

namespace Disassembly

/-- Text in quotes, cut behind `limit` characters with an ellipsis if there are more. -/
def quoted (limit : Nat) (text : List Char) : String :=
  let shown := if limit < text.length then text.take limit ++ ['.', '.', '.'] else text
  String.ofList ('"' :: shown ++ ['"'])

/-- The bytes of narrow text, up to two NULs. -/
def narrowText (text : List Char) : List UInt8 :=
  text.map Char.toUInt8 ++ [0, 0]

/-- The bytes of wide text, up to a NUL in two bytes. The lower byte of a character comes first. -/
def wideText (text : List Char) : List UInt8 :=
  text.flatMap (fun c => [c.toUInt8, 0]) ++ [0, 0]

section Text

variable {text : List Char}

/-- For a preview it is enough to know one character more than it has. -/
theorem quoted_take {limit m : Nat} (h : limit < m) :
    quoted limit (text.take m) = quoted limit text := by
  by_cases hlong : limit < text.length
  · rw [quoted, quoted, List.length_take, if_pos (by omega), if_pos hlong, List.take_take,
      Nat.min_eq_left (Nat.le_of_lt h)]
  · rw [List.take_of_length_le (by omega)]

theorem quoted_take_self {limit : Nat} :
    quoted limit (text.take limit) = quoted limit text ↔ text.length ≤ limit := by
  constructor
  · intro h
    apply Nat.le_of_not_lt
    intro hlong
    have hlength := congrArg (fun s => s.toList.length) h
    have hmin : ¬ limit < min limit text.length := by omega
    simp [quoted, hlong, hmin] at hlength
  · intro h
    rw [List.take_of_length_le h]

theorem stringPreview?_eq_quoted {bytes : List UInt8} {limit : Nat}
    (h : stringAt false bytes = text) (htext : text ≠ []) :
    stringPreview? bytes limit = some (quoted limit text) := by
  rw [stringPreview?, h]
  exact if_neg htext

/-- A printable character is in its byte. -/
theorem printable_toUInt8 {c : Char} (hc : 0x20 ≤ c.toNat ∧ c.toNat ≤ 0x7e) :
    isPrintable c.toUInt8 = true ∧ Char.ofNat c.toUInt8.toNat = c := by
  have hall : ∀ n < 0x7f, 0x20 ≤ n → isPrintable (Char.ofNat n).toUInt8 = true ∧
      Char.ofNat (Char.ofNat n).toUInt8.toNat = Char.ofNat n := by decide +kernel
  have hc' := hall c.toNat (Nat.lt_succ_of_le hc.2) hc.1
  rwa [Char.ofNat_toNat] at hc'

theorem stringAt_cons (skip : Bool) {c : Char} (hc : 0x20 ≤ c.toNat ∧ c.toNat ≤ 0x7e)
    (bytes : List UInt8) : stringAt skip (c.toUInt8 :: bytes) = c :: stringAt true bytes := by
  obtain ⟨hprintable, hchar⟩ := printable_toUInt8 hc
  rw [stringAt, if_pos hprintable, hchar]

/-- There is no text at two NULs, however few bytes are read. -/
theorem stringAt_nuls (skip : Bool) (m : Nat) (bytes : List UInt8) :
    stringAt skip ((0 :: 0 :: bytes).take m) = [] := by
  match m with
  | 0 => rfl
  | 1 => cases skip <;> rfl
  | m + 2 => cases skip <;> rfl

theorem stringAt_narrowText (hprintable : ∀ c ∈ text, 0x20 ≤ c.toNat ∧ c.toNat ≤ 0x7e)
    (skip : Bool) (m : Nat) (bytes : List UInt8) :
    stringAt skip ((narrowText text ++ bytes).take m) = text.take m := by
  induction text generalizing skip m with
  | nil => exact (stringAt_nuls skip m bytes).trans List.take_nil.symm
  | cons c text ih =>
    cases m with
    | zero => rfl
    | succ m =>
      have hrest := ih (fun d hd => hprintable d (List.mem_cons_of_mem c hd)) true m
      have hcons := stringAt_cons skip (hprintable c List.mem_cons_self)
        ((narrowText text ++ bytes).take m)
      rw [hrest] at hcons
      exact hcons

theorem stringAt_wideText (hprintable : ∀ c ∈ text, 0x20 ≤ c.toNat ∧ c.toNat ≤ 0x7e)
    (skip : Bool) (m : Nat) (bytes : List UInt8) :
    stringAt skip ((wideText text ++ bytes).take (m * 2)) = text.take m := by
  induction text generalizing skip m with
  | nil => exact (stringAt_nuls skip (m * 2) bytes).trans List.take_nil.symm
  | cons c text ih =>
    cases m with
    | zero => rfl
    | succ m =>
      -- the NUL behind the character is skipped
      have hrest := ih (fun d hd => hprintable d (List.mem_cons_of_mem c hd)) false m
      have hcons := stringAt_cons skip (hprintable c List.mem_cons_self)
        (0 :: (wideText text ++ bytes).take (m * 2))
      rw [show stringAt true (0 :: (wideText text ++ bytes).take (m * 2)) = _ from hrest] at hcons
      rw [Nat.succ_mul]
      exact hcons

/-- The preview of narrow text, of which more is read than is shown. -/
theorem stringPreview?_narrowText {limit : Nat} (hlimit : 0 < limit) (htext : text ≠ [])
    (hprintable : ∀ c ∈ text, 0x20 ≤ c.toNat ∧ c.toNat ≤ 0x7e) (bytes : List UInt8) :
    stringPreview? ((narrowText text ++ bytes).take (limit * 2)) limit =
      some (quoted limit text) := by
  have hread := stringAt_narrowText hprintable false (limit * 2) bytes
  rw [stringPreview?_eq_quoted hread, quoted_take (by omega)]
  rw [ne_eq, List.take_eq_nil_iff]
  exact fun h => h.elim (by omega) htext

/-- The preview of wide text, of which no more is read than is shown. -/
theorem stringPreview?_wideText {limit : Nat} (hlimit : 0 < limit) (htext : text ≠ [])
    (hprintable : ∀ c ∈ text, 0x20 ≤ c.toNat ∧ c.toNat ≤ 0x7e) (bytes : List UInt8) :
    stringPreview? ((wideText text ++ bytes).take (limit * 2)) limit =
      some (quoted limit (text.take limit)) := by
  have hread := stringAt_wideText hprintable false limit bytes
  apply stringPreview?_eq_quoted hread
  rw [ne_eq, List.take_eq_nil_iff]
  exact fun h => h.elim (by omega) htext

end Text

namespace Enricher

variable {x : Enricher σ} {content : Array UInt8} {number value offset : Nat} {i : Instruction}
  {n : Notes} {k : Seeker} {w : σ}

/-- Where there is room, the preview is that of what is read there. -/
theorem stringFor?_of_pointedAt? (hsource : x.source.Serves content noFaults)
    (hlimit : 0 < x.config.previewLength) (hpoint : x.pointedAt? value = some offset)
    (hroom : offset + x.config.previewLength * 2 ≤ content.size) (w : σ) :
    (x.stringFor? value w).1 =
      stringPreview? ((content.toList.drop offset).take (x.config.previewLength * 2))
        x.config.previewLength := by
  have hsize : x.source.size = content.size := hsource.size_eq
  have hread : (x.source.readClamped offset (x.config.previewLength * 2) w).1 =
      .ok (content.extract offset (offset + x.config.previewLength * 2)) := by
    rw [Source.readClamped, hsize, Nat.min_eq_left (by omega), if_neg (by omega),
      hsource.read_of_quiet (w := w) (.inl (by omega)) rfl rfl, sliceOf_eq_ok_iff]
    exact ⟨hroom, rfl⟩
  have hbytes : (content.extract offset (offset + x.config.previewLength * 2)).toList =
      (content.toList.drop offset).take (x.config.previewLength * 2) := by
    rw [Array.toList_extract, List.extract_eq_take_drop, Nat.add_sub_cancel_left]
  rw [stringFor?, hpoint]
  dsimp only
  rw [if_neg (by omega), ← hbytes]
  generalize x.source.readClamped offset (x.config.previewLength * 2) w = result at hread ⊢
  obtain ⟨r, w'⟩ := result
  obtain rfl : r = _ := hread
  rfl

theorem enrich_push_comment (hflow : i.flow = .push)
    (hliteral : i.literal? x.zone.arch = some value) (hnew : n.hasVisited number = false) :
    (x.enrich number i n k w).2.1.comments.get? number =
      (n.comments.get? number <|> (x.stringFor? value w).1) := by
  have hpush : (x.enrich number i n k w).2.1 = (x.push number value n w).1.visit number := by
    simp only [enrich, Line.ofInstruction, hflow, hliteral]
  rw [hpush, Notes.visit, push, hnew, Bool.false_or, NatMap.contains]
  cases hcomment : n.comments.get? number with
  | some text => exact hcomment
  | none =>
    generalize x.stringFor? value w = found
    obtain ⟨text?, w'⟩ := found
    cases text? with
    | none => exact hcomment
    | some text => exact (NatMap.get?_insert _ _ _ _).trans (if_pos rfl)

theorem pointedAt?_congr {y : Enricher τ} (hzone : y.zone = x.zone) (henv : y.env = x.env)
    (value : Nat) : y.pointedAt? value = x.pointedAt? value := by
  rw [pointedAt?, pointedAt?, henv, hzone]

/-- The same text in two files, narrow in one and wide in the other, behind a push that is shown for
the first time. The narrow text is cut behind the characters of a preview, with an ellipsis if there
are more of them. The wide text is cut as well, but never with an ellipsis; so the two previews are
the same exactly if the text is no longer than a preview. -/
theorem enrich_text_comments {y : Enricher τ} {narrow wide : Array UInt8} {text : List Char}
    (hzone : y.zone = x.zone) (hconfig : y.config = x.config) (henv : y.env = x.env)
    (hx : x.source.Serves narrow noFaults) (hy : y.source.Serves wide noFaults)
    (hlimit : 1 ≤ x.config.previewLength) (hflow : i.flow = .push)
    (hliteral : i.literal? x.zone.arch = some value) (hnew : n.hasVisited number = false)
    (hpoint : x.pointedAt? value = some offset) (htext : text ≠ [])
    (hprintable : ∀ c ∈ text, 0x20 ≤ c.toNat ∧ c.toNat ≤ 0x7e)
    (hnarrow : narrowText text <+: narrow.toList.drop offset)
    (hwide : wideText text <+: wide.toList.drop offset)
    (hroom : offset + x.config.previewLength * 2 ≤ narrow.size)
    (hroom' : offset + x.config.previewLength * 2 ≤ wide.size) (k k' : Seeker) (w : σ) (v : τ) :
    (x.enrich number i n k w).2.1.comments.get? number =
        (n.comments.get? number <|> some (quoted x.config.previewLength text)) ∧
      (y.enrich number i n k' v).2.1.comments.get? number =
        (n.comments.get? number <|> some
          (quoted x.config.previewLength (text.take x.config.previewLength))) ∧
      (quoted x.config.previewLength (text.take x.config.previewLength) =
        quoted x.config.previewLength text ↔ text.length ≤ x.config.previewLength) := by
  obtain ⟨more, hmore⟩ := hnarrow
  obtain ⟨more', hmore'⟩ := hwide
  refine ⟨?_, ?_, quoted_take_self⟩
  · rw [enrich_push_comment hflow hliteral hnew, stringFor?_of_pointedAt? hx hlimit hpoint hroom,
      ← hmore, stringPreview?_narrowText hlimit htext hprintable]
  · rw [← hzone] at hliteral
    rw [← pointedAt?_congr hzone henv] at hpoint
    rw [← hconfig] at hlimit hroom' ⊢
    rw [enrich_push_comment hflow hliteral hnew, stringFor?_of_pointedAt? hy hlimit hpoint hroom',
      ← hmore', stringPreview?_wideText hlimit htext hprintable]

def pushingCode (text : List UInt8) : Array UInt8 :=
  #[0x68, 0x08, 0x00, 0x00, 0x00, 0x90, 0x90, 0x90] ++ text.toArray

def pushing : Instruction where
  address := 0
  bytes := [0x68, 0x08, 0x00, 0x00, 0x00]
  mnemonic := "push"
  operands := "8"

def ofPushing (text : List UInt8) : Enricher Unit where
  zone := { start := 0, size := 5, entry := 0, arch := .x64 }
  config := { previewLength := 4 }
  env := {}
  source := .ofBytes (pushingCode text)
  decoder := { decode _ _ w := (.ok (some pushing), w) }
  index := { trueStart := 0, samples := [], lineCount := 1, codeEnd := 5 }
  levels := .start 1

def letters : List Char :=
  ['a', 'b', 'c', 'd', 'e', 'f']

theorem enrich_text_comments_letters :
    ((ofPushing (narrowText letters)).enrich 0 pushing {} (.start 5) ()).2.1.comments.get? 0 =
        some (quoted 4 letters) ∧
      ((ofPushing (wideText letters)).enrich 0 pushing {} (.start 5) ()).2.1.comments.get? 0 =
        some (quoted 4 (letters.take 4)) := by
  have hliteral : pushing.literal? (ofPushing (narrowText letters)).zone.arch = some 8 := by decide
  have hnew : ({} : Notes).hasVisited 0 = false := by decide
  have hpoint : (ofPushing (narrowText letters)).pointedAt? 8 = some 8 := by decide
  have hprintable : ∀ c ∈ letters, 0x20 ≤ c.toNat ∧ c.toNat ≤ 0x7e := by simp [letters]
  have hnarrow : narrowText letters <+: (pushingCode (narrowText letters)).toList.drop 8 := by
    decide
  have hwide : wideText letters <+: (pushingCode (wideText letters)).toList.drop 8 := by decide
  obtain ⟨hcomment, hcomment', -⟩ :=
    enrich_text_comments (x := ofPushing (narrowText letters)) (y := ofPushing (wideText letters))
      rfl rfl rfl (Source.ofBytes_serves _) (Source.ofBytes_serves _) (by decide) rfl hliteral hnew
      hpoint (List.cons_ne_nil _ _) hprintable hnarrow hwide (by decide) (by decide) (.start 5)
      (.start 5) () ()
  exact ⟨hcomment, hcomment'⟩

/-- Wide text that is longer than a preview is shown as if it ended there, unlike narrow text. -/
theorem wide_comment_without_ellipsis :
    wideText letters <+: (pushingCode (wideText letters)).toList.drop 8 ∧
      8 + 4 * 2 ≤ (pushingCode (wideText letters)).size ∧
      ((ofPushing (wideText letters)).enrich 0 pushing {} (.start 5) ()).2.1.comments.get? 0 ≠
        some (quoted 4 letters) ∧
      ((ofPushing (wideText letters)).enrich 0 pushing {} (.start 5) ()).2.1.comments.get? 0 ≠
        ((ofPushing (narrowText letters)).enrich 0 pushing {} (.start 5) ()).2.1.comments.get? 0 := by
  decide +kernel

end Enricher
end Disassembly
