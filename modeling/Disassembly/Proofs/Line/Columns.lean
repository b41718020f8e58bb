import Disassembly.Line.Display
import Disassembly.Proofs.Text.Spelling

/-! # The columns of a line

In front of what a line says stand its address, its first bytes, as numbers and as characters, and its
rails. Bytes that a line does not have leave blanks, so for addresses of 32 bits all of this has a width
that depends on nothing but the options. A comment is put behind a line, as far to the right as comments
go or as the line forces it.
-/

namespace Disassembly

def textOf (ss : List Segment) : List Char :=
  ss.flatMap (·.text.toList)

@[simp] theorem textOf_nil : textOf [] = [] :=
  rfl

@[simp] theorem textOf_cons (s : Segment) (ss : List Segment) :
    textOf (s :: ss) = s.text.toList ++ textOf ss :=
  rfl

@[simp] theorem textOf_append (ss ts : List Segment) :
    textOf (ss ++ ts) = textOf ss ++ textOf ts :=
  List.flatMap_append

namespace DisplayLine

theorem toList_text (d : DisplayLine) : d.text.toList = textOf d.segments := by
  rw [text, String.toList_join, List.flatMap_map, textOf]

theorem width_eq (d : DisplayLine) : d.width = d.text.toList.length := by
  have hfold : ∀ (ss : List Segment) (n : Nat),
      ss.foldl (fun width s => width + s.text.length) n = n + (textOf ss).length := by
    intro ss
    induction ss with
    | nil => exact fun n => rfl
    | cons s ss ih =>
      intro n
      rw [List.foldl_cons, ih, textOf_cons, List.length_append, String.length_toList, Nat.add_assoc]
  rw [toList_text, width, hfold, Nat.zero_add]

/-- Segments without text add nothing to the text of a line. -/
theorem toList_text_ofSegments (ss : List Segment) : (ofSegments ss).text.toList = textOf ss := by
  rw [toList_text, ofSegments]
  induction ss with
  | nil => rfl
  | cons s ss ih =>
    by_cases hs : s.text = ""
    · rw [List.filter_cons_of_neg (by simpa using hs), ih, textOf_cons, hs]
      rfl
    · rw [List.filter_cons_of_pos (by simpa using hs), textOf_cons, ih, textOf_cons]

theorem text_ne_of_mem_ofSegments {ss : List Segment} {s : Segment}
    (h : s ∈ (ofSegments ss).segments) : s.text ≠ "" := by
  simpa using List.of_mem_filter h

theorem segments_ofSegments_append (ss ts : List Segment) :
    (ofSegments (ss ++ ts)).segments = (ofSegments ss).segments ++ (ofSegments ts).segments :=
  List.filter_append ss ts

theorem segments_ofSegments {ss : List Segment} (h : ∀ s ∈ ss, s.text ≠ "") :
    (ofSegments ss).segments = ss :=
  List.filter_eq_self.2 fun s hs => by simpa using h s hs

end DisplayLine

/-- The column at which a line says what it is, behind its address, bytes, characters and rails. -/
def DisplayOptions.margin (opts : DisplayOptions) : Nat :=
  15 + 4 * opts.bytesShown + if opts.rails then 5 else 0

/-- The column at which a comment begins behind a line that is so wide: where comments begin, but at
least one blank behind the line. -/
def DisplayOptions.commentStart (opts : DisplayOptions) (width : Nat) : Nat :=
  max opts.commentColumn (width + 1)

namespace Line

theorem map_getElem?_range {α : Type} (xs : List α) (n : Nat) :
    (List.range n).map (xs[·]?) = (xs.take n).map some ++ List.replicate (n - xs.length) none := by
  induction n generalizing xs with
  | zero => simp
  | succ n ih =>
    rw [List.range_succ_eq_map, List.map_cons, List.map_map]
    cases xs with
    | nil => simp [List.replicate_succ, Function.comp_def]
    | cons x xs => simpa [Function.comp_def] using ih xs

/-- The place of a byte in the byte column: its number and a blank, or only blanks. -/
def byteCell (b : Option UInt8) : List Char :=
  b.elim [' ', ' ', ' '] fun b => (Text.hexByte b).toList ++ [' ']

def shownBytes (count : Nat) (bytes : List UInt8) : List Char :=
  (bytes.take count).flatMap (fun b => (Text.hexByte b).toList ++ [' ']) ++
    List.replicate (3 * (count - bytes.length)) ' '

theorem toList_bytesColumn (count : Nat) (bytes : List UInt8) :
    (bytesColumn count bytes).toList = shownBytes count bytes := by
  have hcells : (bytesColumn count bytes).toList =
      ((List.range count).map (bytes[·]?)).flatMap byteCell := by
    rw [bytesColumn, String.toList_join, List.flatMap_map, List.flatMap_map]
    apply List.flatMap_congr
    intro i _
    cases bytes[i]? with
    | none => rfl
    | some b => exact String.toList_append
  have hblanks : (List.replicate (count - bytes.length) none).flatMap byteCell =
      List.replicate (3 * (count - bytes.length)) ' ' := by
    rw [List.flatMap_replicate, Nat.mul_comm]
    change (List.replicate _ (List.replicate 3 ' ')).flatten = _
    rw [List.flatten_replicate_replicate]
  rw [hcells, map_getElem?_range, List.flatMap_append, List.flatMap_map, hblanks]
  rfl

theorem length_shownBytes (count : Nat) (bytes : List UInt8) :
    (shownBytes count bytes).length = 3 * count := by
  have hbytes : ((bytes.take count).flatMap fun b => (Text.hexByte b).toList ++ [' ']).length =
      3 * min count bytes.length := by
    rw [List.length_flatMap]
    simp [(Text.spellsByte_hexByte _).length_eq, Nat.mul_comm]
  rw [shownBytes, List.length_append, hbytes, List.length_replicate]
  omega

def shownChars (count : Nat) (bytes : List UInt8) : List Char :=
  (bytes.take count).map shownChar ++ List.replicate (count - bytes.length) ' '

theorem toList_charsColumn (count : Nat) (bytes : List UInt8) :
    (charsColumn count bytes).toList = shownChars count bytes := by
  have hcells : (charsColumn count bytes).toList =
      ((List.range count).map (bytes[·]?)).map fun b => b.elim ' ' shownChar := by
    rw [charsColumn, String.toList_ofList, List.map_map]
    apply List.map_congr_left
    intro i _
    simp only [Function.comp_apply]
    cases bytes[i]? <;> rfl
  rw [hcells, map_getElem?_range, List.map_append, List.map_map, List.map_replicate]
  rfl

theorem length_shownChars (count : Nat) (bytes : List UInt8) :
    (shownChars count bytes).length = count := by
  rw [shownChars, List.length_append, List.length_map, List.length_take, List.length_replicate]
  omega

theorem length_railsColumn (r : Rails) : (railsColumn r).toList.length = Rails.lanes := by
  simp only [railsColumn, String.toList_ofList]
  generalize (if r.isStart || r.isEnd then '-' else ' ') = free
  split
  · simp [Rails.lanes]
  · split <;> simp [Rails.lanes]

theorem length_drawnRails (opts : DisplayOptions) (r : Rails) :
    (if opts.rails then (railsColumn r).toList else []).length = if opts.rails then 5 else 0 := by
  split
  · exact length_railsColumn r
  · rfl

/-- The text in front of what a line says: its address, the first of its bytes as numbers and as
characters, and its rails. -/
def marginText (opts : DisplayOptions) (l : Line) : List Char :=
  ['0', 'x'] ++ (Text.hexPadded 8 l.address).toList ++ [' ', '|'] ++
    shownBytes opts.bytesShown l.bytes ++ ['|'] ++ shownChars opts.bytesShown l.bytes ++
    [' ', '|'] ++ if opts.rails then (railsColumn l.rails).toList else []

variable {opts : DisplayOptions} {l : Line}

theorem length_marginText (haddress : l.address < 2 ^ 32) :
    (l.marginText opts).length = opts.margin := by
  have haddr : (Text.hexPadded 8 l.address).toList.length = 8 :=
    Text.length_hexPadded (by decide) haddress
  simp only [marginText, List.length_append, haddr, length_drawnRails, length_shownBytes,
    length_shownChars, List.length_cons, List.length_nil, DisplayOptions.margin]
  omega

/-- The character tells a byte from others if it is a printable one of ASCII. -/
def ShowsByte (c : Char) (b : UInt8) : Prop :=
  if 0x20 ≤ b.toNat ∧ b.toNat < 0x7f then c.toNat = b.toNat else c = '.'

theorem shownChar_showsByte (b : UInt8) : ShowsByte (shownChar b) b := by
  have hall : ∀ n < 256, ShowsByte (shownChar (UInt8.ofNat n)) (UInt8.ofNat n) := by
    unfold ShowsByte
    decide +kernel
  simpa using hall b.toNat b.toNat_lt

/-- In front of what a line says stand eight digits that spell its address, two digits for each byte
that is shown and a character for each of these, and five places for rails if they are drawn. -/
def IsMargin (opts : DisplayOptions) (l : Line) (text : List Char) : Prop :=
  ∃ digits cells chars rails,
    text = ['0', 'x'] ++ digits ++ [' ', '|'] ++ cells.flatMap (· ++ [' ']) ++
        List.replicate (3 * (opts.bytesShown - l.bytes.length)) ' ' ++ ['|'] ++ chars ++
        List.replicate (opts.bytesShown - l.bytes.length) ' ' ++ [' ', '|'] ++ rails ∧
      digits.length = 8 ∧ Text.Spells 16 digits l.address ∧
      List.Forall₂ Text.SpellsByte cells (l.bytes.take opts.bytesShown) ∧
      List.Forall₂ ShowsByte chars (l.bytes.take opts.bytesShown) ∧
      rails.length = if opts.rails then 5 else 0

theorem marginText_isMargin (haddress : l.address < 2 ^ 32) :
    l.IsMargin opts (l.marginText opts) := by
  refine ⟨(Text.hexPadded 8 l.address).toList,
    (l.bytes.take opts.bytesShown).map fun b => (Text.hexByte b).toList,
    (l.bytes.take opts.bytesShown).map shownChar,
    if opts.rails then (railsColumn l.rails).toList else [], ?_,
    Text.length_hexPadded (by decide) haddress, Text.spells_hexPadded 8 l.address, ?_, ?_,
    length_drawnRails opts l.rails⟩
  · simp only [marginText, shownBytes, shownChars, List.flatMap_map, List.append_assoc]
  · rw [List.forall₂_map_left_iff]
    exact List.forall₂_same.2 fun b _ => Text.spellsByte_hexByte b
  · rw [List.forall₂_map_left_iff]
    exact List.forall₂_same.2 fun b _ => shownChar_showsByte b

def addressSegment (l : Line) : Segment :=
  { text := s!"0x{Text.hexPadded 8 l.address} ", tag := .address }

theorem textOf_columns (opts : DisplayOptions) (l : Line) :
    textOf (l.addressSegment :: l.columns opts) = l.marginText opts := by
  have haddress : l.addressSegment.text.toList =
      ['0', 'x'] ++ (Text.hexPadded 8 l.address).toList ++ [' '] := by
    rw [addressSegment, String.toList_append, String.toList_append]
    rfl
  rw [textOf_cons, haddress, columns, textOf_append, marginText]
  simp only [textOf_cons, textOf_nil, toList_bytesColumn, toList_charsColumn]
  cases opts.rails <;> simp

def saidSegments (l : Line) : List Segment :=
  match l.kind with
  | .failed _ => []
  | .label name => [{ text := name, tag := .label }, { text := " <--", tag := .label }]
  | .instruction => l.instructionSegments

theorem composeBody_of_not_failed (hkind : ∀ e, l.kind ≠ .failed e) :
    l.composeBody opts =
      .ofSegments (l.addressSegment :: l.columns opts ++ l.saidSegments) := by
  rw [composeBody, bodySegments, saidSegments]
  cases h : l.kind with
  | failed e => exact absurd h (hkind e)
  | label | instruction => rfl

theorem compose_none (opts : DisplayOptions) (l : Line) : l.compose opts none = l.composeBody opts := by
  unfold compose
  cases l.kind <;> rfl

theorem toList_text_compose (hkind : ∀ e, l.kind ≠ .failed e) :
    (l.compose opts none).text.toList =
      l.marginText opts ++ textOf l.saidSegments := by
  rw [compose_none, composeBody_of_not_failed hkind, DisplayLine.toList_text_ofSegments,
    textOf_append, textOf_columns]

theorem segments_compose_some (hkind : ∀ e, l.kind ≠ .failed e) (comment : String) :
    (l.compose opts (some comment)).segments = (l.compose opts none).segments ++
      [{ text := String.ofList (List.replicate (opts.commentStart (l.compose opts none).width -
          (l.compose opts none).width) ' '), tag := .column },
       { text := "; " ++ comment, tag := .comment }] := by
  have hpad : opts.commentStart (l.compose opts none).width - (l.compose opts none).width =
      max (opts.commentColumn - (l.compose opts none).width) 1 := by
    rw [DisplayOptions.commentStart]
    omega
  rw [hpad, compose_none]
  unfold compose
  cases h : l.kind with
  | failed e => exact absurd h (hkind e)
  | label | instruction =>
    -- nothing is dropped, since the padding and the comment have text
    apply DisplayLine.segments_ofSegments
    intro s hs
    rcases List.mem_append.1 hs with hs | hs
    · exact DisplayLine.text_ne_of_mem_ofSegments hs
    · rcases List.mem_pair.1 hs with rfl | rfl
      · rw [ne_eq, String.ofList_eq_empty_iff, List.replicate_eq_nil_iff]
        omega
      · exact fun h => absurd (String.append_eq_empty_iff.1 h).1 (by decide)

theorem toList_text_compose_some (hkind : ∀ e, l.kind ≠ .failed e) (comment : String) :
    (l.compose opts (some comment)).text.toList = (l.compose opts none).text.toList ++
      (List.replicate (opts.commentStart (l.compose opts none).width -
        (l.compose opts none).width) ' ' ++ ("; ".toList ++ comment.toList)) := by
  rw [DisplayLine.toList_text, segments_compose_some hkind, textOf_append, ← DisplayLine.toList_text,
    textOf_cons, textOf_cons, textOf_nil, String.toList_ofList, String.toList_append, List.append_nil]

/-- How a line is laid out, without a comment and with one. -/
structure LinesUp (opts : DisplayOptions) (l : Line) : Prop where
  length_margin : (l.marginText opts).length = opts.margin
  isMargin : l.IsMargin opts (l.marginText opts)
  /-- Behind the columns stands the label, or two blanks further the mnemonic. -/
  label : ∀ {name}, l.kind = .label name →
    (l.compose opts none).text.toList = l.marginText opts ++ (name.toList ++ " <--".toList)
  mnemonic : l.kind = .instruction → ∃ behind, (l.compose opts none).text.toList =
    l.marginText opts ++ ("  ".toList ++ (l.mnemonic.toList ++ behind))
  comment : ∀ comment, (l.compose opts (some comment)).segments = (l.compose opts none).segments ++
    [{ text := String.ofList (List.replicate (opts.commentStart (l.compose opts none).width -
        (l.compose opts none).width) ' '), tag := .column },
     { text := "; " ++ comment, tag := .comment }]
  comment_start : ∀ comment, (l.compose opts (some comment)).text.toList.drop
    (opts.commentStart (l.compose opts none).width) = "; ".toList ++ comment.toList

/-- Lines at addresses of 32 bits line up, whatever else they are. -/
theorem compose_linesUp (hkind : ∀ e, l.kind ≠ .failed e) (haddress : l.address < 2 ^ 32) :
    l.LinesUp opts := by
  refine {
    length_margin := length_marginText haddress
    isMargin := marginText_isMargin haddress
    label := fun {name} h => ?_
    mnemonic := fun h => ?_
    comment := segments_compose_some hkind
    comment_start := fun comment => ?_ }
  · rw [toList_text_compose hkind, saidSegments, h]
    simp
  · rw [toList_text_compose hkind, saidSegments, h]
    simp only [instructionSegments, List.cons_append, List.nil_append, textOf_cons,
      Text.toList_padEnd, List.append_assoc]
    exact ⟨_, rfl⟩
  · have hwidth : (l.compose opts none).width < opts.commentStart (l.compose opts none).width :=
      Nat.lt_of_succ_le (Nat.le_max_right _ _)
    rw [toList_text_compose_some hkind, ← List.append_assoc]
    apply List.drop_left'
    rw [List.length_append, List.length_replicate, ← DisplayLine.width_eq]
    omega

def callLine : Line where
  number := 0
  kind := .instruction
  address := 0x1050
  bytes := [0xe8, 0xdb, 0xff, 0xff, 0xff]
  mnemonic := "call"
  operands := "sub_0x00001030 (0x1030)"
  flow := .call

theorem compose_linesUp_call :
    (∀ e, callLine.kind ≠ .failed e) ∧ callLine.address < 2 ^ 32 ∧
      DisplayOptions.margin {} = 52 ∧ (callLine.marginText {}).length = 52 ∧
      (callLine.compose {} (some "opens")).text.toList.drop 96 = "; opens".toList := by
  have hkind : ∀ e, callLine.kind ≠ .failed e := nofun
  have haddress : callLine.address < 2 ^ 32 := by decide
  have h : callLine.LinesUp {} := compose_linesUp hkind haddress
  have hwidth : (callLine.compose {} none).width = 84 := by decide
  have hcomment := h.comment_start "opens"
  rw [hwidth] at hcomment
  exact ⟨hkind, haddress, rfl, h.length_margin, hcomment⟩

end Line
end Disassembly
