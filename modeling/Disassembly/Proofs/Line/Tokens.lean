import Disassembly.Proofs.Line.Columns

/-! # The tokens of operand text

Operand text is cut into tokens at spaces, commas and brackets, and each token becomes a segment of its
own. Spaces are dropped and put where they belong, which is in front of an opening bracket, and of a
token that does not stand right behind one. So nothing but spaces is lost or gained, and text that has
been laid out once stays as it is.
-/

namespace Disassembly

namespace Line

/-- What is left of operand text between spaces, commas and brackets. -/
def tokens (text : List Char) : List (List Char) :=
  (text.splitOnP isSeparator).filter (· ≠ [])

/-- No character of `t` ends a token. -/
def IsUnbroken (t : List Char) : Prop :=
  ∀ c ∈ t, isSeparator c = false

/-- A token in front of `text` ends there. -/
def BeginsApart (text : List Char) : Prop :=
  ∀ c ∈ text.head?, isSeparator c = true

theorem beginsApart_nil : BeginsApart [] :=
  nofun

theorem beginsApart_cons {c : Char} (hc : isSeparator c = true) (text : List Char) :
    BeginsApart (c :: text) := by
  intro d hd
  cases hd
  exact hc

theorem separated_induction {P : List Char → Prop} (token : ∀ t, IsUnbroken t → P t)
    (separator : ∀ t c cs, IsUnbroken t → isSeparator c = true → P cs → P (t ++ c :: cs))
    (text : List Char) : P text := by
  -- with the beginning of a token in front, to which characters go until it ends
  have h : ∀ t, IsUnbroken t → P (t ++ text) := by
    induction text with
    | nil => exact fun t ht => (List.append_nil t).symm ▸ token t ht
    | cons c cs ih =>
      intro t ht
      cases hc : isSeparator c with
      | true => exact separator t c cs ht hc (ih [] nofun)
      | false =>
        have hts : IsUnbroken (t ++ [c]) := List.forall_mem_append.2 ⟨ht, by simpa using hc⟩
        rw [List.append_cons]
        exact ih _ hts
  exact h [] nofun

variable {t text : List Char} {c last : Char}

theorem operandSegments_append (ht : IsUnbroken t) (token text : List Char) :
    operandSegments last token (t ++ text) = operandSegments last (t.reverse ++ token) text := by
  induction t generalizing token with
  | nil => rfl
  | cons c t ih =>
    obtain ⟨hc, ht⟩ := List.forall_mem_cons.1 ht
    rw [List.cons_append, operandSegments, if_neg (by simp [hc]), ih ht, List.reverse_cons,
      List.append_assoc]
    rfl

theorem operandSegments_cons (hc : isSeparator c = true) (text : List Char) :
    operandSegments last [] (c :: text) = separatorSegments c ++ operandSegments c [] text := by
  rw [operandSegments, if_pos hc]
  rfl

/-- A token in front of a separator has its segments, and then the separator. -/
theorem operandSegments_separator (ht : IsUnbroken t) (hc : isSeparator c = true)
    (text : List Char) :
    operandSegments last [] (t ++ c :: text) =
      tokenSegments last t ++ separatorSegments c ++ operandSegments c [] text := by
  rw [operandSegments_append ht, operandSegments, if_pos hc, List.append_nil, List.reverse_reverse]

theorem operandSegments_token (ht : IsUnbroken t) :
    operandSegments last [] t = tokenSegments last t := by
  have h : operandSegments last [] (t ++ []) = operandSegments last (t.reverse ++ []) [] :=
    operandSegments_append ht [] []
  rw [List.append_nil, List.append_nil] at h
  rw [h, operandSegments, List.reverse_reverse]

/-- Behind a token it does not matter what was in front of it. -/
theorem operandSegments_apart (ht : IsUnbroken t) (htext : BeginsApart text) (last' : Char) :
    operandSegments last [] (t ++ text) = tokenSegments last t ++ operandSegments last' [] text := by
  cases text with
  | nil => rw [List.append_nil, operandSegments_token ht]; simp [operandSegments, tokenSegments]
  | cons c text =>
    have hc : isSeparator c = true := htext c rfl
    rw [operandSegments_separator ht hc, operandSegments_cons hc, List.append_assoc]

theorem tokens_separator (hc : isSeparator c = true) (text : List Char) :
    tokens (c :: text) = tokens text := by
  rw [tokens, ← List.nil_append (c :: text), List.splitOnP_append_cons [] text hc, List.splitOnP_nil]
  rfl

/-- A token is cut off in front of what begins apart from it, unless it is empty. -/
theorem tokens_append (ht : IsUnbroken t) (htext : BeginsApart text) :
    tokens (t ++ text) = [t].filter (· ≠ []) ++ tokens text := by
  cases text with
  | nil =>
    rw [List.append_nil, tokens, tokens, List.splitOnP_eq_singleton ht, List.splitOnP_nil]
    exact (List.append_nil _).symm
  | cons c text =>
    have hc : isSeparator c = true := htext c rfl
    rw [tokens_separator hc, tokens, List.splitOnP_append_cons _ _ hc,
      List.splitOnP_eq_singleton ht, List.filter_append]
    rfl

theorem separator_cases (hc : isSeparator c = true) : c = ' ' ∨ c = ',' ∨ c = '[' ∨ c = ']' := by
  simpa [isSeparator, or_assoc] using hc

def gap (last : Char) (t : List Char) : List Char :=
  if t = [] ∨ last = '[' then [] else [' ']

theorem textOf_tokenSegments (last : Char) (t : List Char) :
    textOf (tokenSegments last t) = gap last t ++ t := by
  cases t with
  | nil => rfl
  | cons c t =>
    rw [tokenSegments, gap]
    by_cases hlast : last = '[' <;> simp [hlast]

theorem beginsApart_textOf (hlast : last ≠ '[') (text : List Char) :
    BeginsApart (textOf (operandSegments last [] text)) := by
  induction text using separated_induction generalizing last with
  | token t ht =>
    rw [operandSegments_token ht, textOf_tokenSegments, gap]
    cases t with
    | nil => exact nofun
    | cons => simp [BeginsApart, hlast, isSeparator]
  | separator t c cs ht hc ih =>
    rw [operandSegments_separator ht hc, textOf_append, textOf_append, textOf_tokenSegments, gap]
    cases t with
    | nil =>
      rcases separator_cases hc with rfl | rfl | rfl | rfl
      · exact ih (by decide)
      all_goals exact beginsApart_cons rfl _
    | cons => simp [BeginsApart, hlast, isSeparator]

theorem beginsApart_separator (hc : isSeparator c = true) (text : List Char) :
    BeginsApart (textOf (separatorSegments c) ++ textOf (operandSegments c [] text)) := by
  rcases separator_cases hc with rfl | rfl | rfl | rfl
  · exact beginsApart_textOf (by decide) text
  all_goals exact beginsApart_cons rfl _

/-- Laying out drops and adds nothing but spaces. -/
theorem filter_textOf (last : Char) (text : List Char) :
    (textOf (operandSegments last [] text)).filter (· ≠ ' ') = text.filter (· ≠ ' ') := by
  have htoken (last : Char) (t : List Char) :
      (textOf (tokenSegments last t)).filter (· ≠ ' ') = t.filter (· ≠ ' ') := by
    rw [textOf_tokenSegments, gap]
    split <;> rfl
  induction text using separated_induction generalizing last with
  | token t ht => rw [operandSegments_token ht, htoken]
  | separator t c cs ht hc ih =>
    have hseparator : (textOf (separatorSegments c)).filter (· ≠ ' ') = [c].filter (· ≠ ' ') := by
      rcases separator_cases hc with rfl | rfl | rfl | rfl <;> rfl
    rw [operandSegments_separator ht hc, textOf_append, textOf_append, List.filter_append,
      List.filter_append, htoken, hseparator, ih, List.append_cons, List.filter_append,
      List.filter_append]

theorem tokens_textOf (last : Char) (text : List Char) :
    tokens (textOf (operandSegments last [] text)) = tokens text := by
  have hgap (last : Char) (t text : List Char) : tokens (gap last t ++ text) = tokens text := by
    rw [gap]
    split
    · rfl
    · exact tokens_separator rfl text
  induction text using separated_induction generalizing last with
  | token t ht => rw [operandSegments_token ht, textOf_tokenSegments, hgap]
  | separator t c cs ht hc ih =>
    have hseparator (text : List Char) :
        tokens (textOf (separatorSegments c) ++ text) = tokens text := by
      rcases separator_cases hc with rfl | rfl | rfl | rfl
      · rfl
      · exact tokens_separator rfl text
      · exact (tokens_separator (c := ' ') rfl _).trans (tokens_separator rfl text)
      · exact tokens_separator rfl text
    rw [operandSegments_separator ht hc, textOf_append, textOf_append, textOf_tokenSegments,
      List.append_assoc, List.append_assoc, hgap, tokens_append ht (beginsApart_separator hc cs),
      hseparator, ih, tokens_append ht (beginsApart_cons hc cs),
      tokens_separator hc]

def tokenSegment (t : List Char) : Segment :=
  { text := String.ofList t, tag := operandTag t }

def hasToken (s : Segment) : Bool :=
  s.text.toList.any fun c => !isSeparator c

/-- The segments that are more than separators are those of the tokens. -/
theorem filter_hasToken (last : Char) (text : List Char) :
    (operandSegments last [] text).filter hasToken = (tokens text).map tokenSegment := by
  have htoken (last : Char) {t : List Char} (ht : IsUnbroken t) :
      (tokenSegments last t).filter hasToken = ([t].filter (· ≠ [])).map tokenSegment := by
    cases t with
    | nil => rfl
    | cons c t =>
      have hc : isSeparator c = false := ht c List.mem_cons_self
      rw [tokenSegments]
      by_cases hlast : last = '[' <;>
        simp [hlast, hasToken, hc, tokenSegment, show isSeparator ' ' = true from rfl]
  induction text using separated_induction generalizing last with
  | token t ht =>
    rw [operandSegments_token ht, htoken last ht, tokens, List.splitOnP_eq_singleton ht]
  | separator t c cs ht hc ih =>
    have hseparator : (separatorSegments c).filter hasToken = [] := by
      rcases separator_cases hc with rfl | rfl | rfl | rfl <;> decide
    rw [operandSegments_separator ht hc, List.filter_append, List.filter_append, htoken last ht,
      hseparator, ih, List.append_nil, tokens_append ht (beginsApart_cons hc cs),
      tokens_separator hc, List.map_append]

theorem operandSegments_gap (ht : IsUnbroken t) (htext : BeginsApart text) :
    operandSegments last [] (gap last t ++ (t ++ text)) =
      tokenSegments last t ++ operandSegments ' ' [] text := by
  rw [gap]
  split
  · exact operandSegments_apart ht htext ' '
  · rename_i h
    have hspace : tokenSegments ' ' t = tokenSegments last t := by
      rw [not_or] at h
      simp [tokenSegments, h.2]
    rw [List.singleton_append, operandSegments_cons rfl, operandSegments_apart ht htext ' ', hspace]
    rfl

theorem operandSegments_textOf (last : Char) (text : List Char) :
    operandSegments last [] (textOf (operandSegments last [] text)) =
      operandSegments last [] text := by
  induction text using separated_induction generalizing last with
  | token t ht =>
    have h : operandSegments last [] (gap last t ++ (t ++ [])) = tokenSegments last t ++ [] :=
      operandSegments_gap ht beginsApart_nil
    rw [List.append_nil] at h
    rw [operandSegments_token ht, textOf_tokenSegments, h]
    exact List.append_nil _
  | separator t c cs ht hc ih =>
    -- the gap has been read, so what comes next stands behind a space or a token
    have hnil : operandSegments ' ' []
        (textOf (separatorSegments c) ++ textOf (operandSegments c [] cs)) =
          separatorSegments c ++ operandSegments c [] cs := by
      rcases separator_cases hc with rfl | rfl | rfl | rfl
      · exact ih ' '
      · exact congrArg (separatorSegments ',' ++ ·) (ih ',')
      · exact congrArg (separatorSegments '[' ++ ·) (ih '[')
      · exact congrArg (separatorSegments ']' ++ ·) (ih ']')
    rw [operandSegments_separator ht hc, textOf_append, textOf_append, textOf_tokenSegments,
      List.append_assoc, List.append_assoc, operandSegments_gap ht (beginsApart_separator hc cs),
      hnil, List.append_assoc]

theorem text_ne_of_mem_operandSegments (last : Char) (text : List Char) :
    ∀ s ∈ operandSegments last [] text, s.text ≠ "" := by
  have htoken (last : Char) (t : List Char) : ∀ s ∈ tokenSegments last t, s.text ≠ "" := by
    cases t with
    | nil => exact nofun
    | cons c t =>
      rw [tokenSegments]
      by_cases hlast : last = '[' <;> simp [hlast]
  induction text using separated_induction generalizing last with
  | token t ht =>
    rw [operandSegments_token ht]
    exact htoken last t
  | separator t c cs ht hc ih =>
    have hseparator : ∀ s ∈ separatorSegments c, s.text ≠ "" := by
      rcases separator_cases hc with rfl | rfl | rfl | rfl <;> decide
    rw [operandSegments_separator ht hc]
    exact List.forall_mem_append.2
      ⟨List.forall_mem_append.2 ⟨htoken last t, hseparator⟩, ih c⟩

def isMnemonicTag : Tag → Bool
  | .mnemonic | .jump | .call | .push => true
  | _ => false

def behindMnemonic (d : DisplayLine) : List Segment :=
  (d.segments.dropWhile fun s => !isMnemonicTag s.tag).tail

theorem isMnemonicTag_mnemonicTag (mnemonic : String) :
    isMnemonicTag (mnemonicTag mnemonic) = true := by
  rw [mnemonicTag]
  split
  · rfl
  · split
    · rfl
    · split <;> rfl

theorem behindMnemonic_ofSegments {front behind : List Segment} {m : Segment}
    (hfront : ∀ s ∈ front, isMnemonicTag s.tag = false) (htag : isMnemonicTag m.tag = true)
    (hbehind : ∀ s ∈ m :: behind, s.text ≠ "") :
    behindMnemonic (.ofSegments (front ++ m :: behind)) = behind := by
  have hsegments : (DisplayLine.ofSegments (front ++ m :: behind)).segments =
      (DisplayLine.ofSegments front).segments ++ m :: behind := by
    rw [DisplayLine.segments_ofSegments_append, DisplayLine.segments_ofSegments hbehind]
  have hkept : ∀ s ∈ (DisplayLine.ofSegments front).segments, (!isMnemonicTag s.tag) = true :=
    fun s hs => by simpa using hfront s (List.mem_of_mem_filter hs)
  rw [behindMnemonic, hsegments, List.dropWhile_append_of_pos hkept,
    List.dropWhile_cons_of_neg (by simpa using htag)]
  rfl

variable {opts : DisplayOptions} {l : Line}

def mnemonicSegment (l : Line) : Segment :=
  { text := Text.padEnd 6 l.mnemonic, tag := mnemonicTag l.mnemonic }

/-- The mnemonic is padded, so it has text even if it is empty. -/
theorem text_mnemonicSegment_ne (l : Line) : l.mnemonicSegment.text ≠ "" := by
  intro h
  have hlength := congrArg (·.toList.length) h
  simp only [mnemonicSegment, Text.toList_padEnd, List.length_append, List.length_replicate,
    String.length_toList, String.length_empty] at hlength
  omega

theorem isMnemonicTag_of_mem_columns :
    ∀ s ∈ l.addressSegment :: l.columns opts, isMnemonicTag s.tag = false := by
  rw [columns]
  cases opts.rails <;> simp [isMnemonicTag, addressSegment]

theorem behindMnemonic_compose (hkind : l.kind = .instruction) (hsymbol : l.symbol = none) :
    behindMnemonic (l.compose opts none) = operandSegments ' ' [] l.operands.toList := by
  have hnot : ∀ e, l.kind ≠ .failed e := fun e => by rw [hkind]; exact nofun
  have hsaid : l.saidSegments = [{ text := "  ", tag := .column }] ++
      l.mnemonicSegment :: operandSegments ' ' [] l.operands.toList := by
    rw [saidSegments, hkind]
    simp only [instructionSegments, hsymbol]
    rfl
  rw [compose_none, composeBody_of_not_failed hnot, hsaid, ← List.append_assoc]
  exact behindMnemonic_ofSegments
    (List.forall_mem_append.2 ⟨isMnemonicTag_of_mem_columns, by simp [isMnemonicTag]⟩)
    (isMnemonicTag_mnemonicTag l.mnemonic)
    (List.forall_mem_cons.2
      ⟨l.text_mnemonicSegment_ne, text_ne_of_mem_operandSegments ' ' _⟩)

/-- What the segments behind the mnemonic of `l` have of its operand text. -/
structure KeepsTokens (opts : DisplayOptions) (l : Line) : Prop where
  /-- Nothing but spaces is dropped or added. -/
  text_eq : (textOf (behindMnemonic (l.compose opts none))).filter (· ≠ ' ') =
    l.operands.toList.filter (· ≠ ' ')
  tokens_eq : tokens (textOf (behindMnemonic (l.compose opts none))) = tokens l.operands.toList
  /-- Each token has a segment, and all others are separators. -/
  filter_eq : (behindMnemonic (l.compose opts none)).filter hasToken =
    (tokens l.operands.toList).map tokenSegment
  text_ne : ∀ s ∈ behindMnemonic (l.compose opts none), s.text ≠ ""
  /-- Operand text that has been laid out already has the same segments, on whatever line. -/
  again : ∀ {opts'} {l' : Line}, l'.kind = .instruction → l'.symbol = none →
    l'.operands.toList = textOf (behindMnemonic (l.compose opts none)) →
      behindMnemonic (l'.compose opts' none) = behindMnemonic (l.compose opts none)

/-- Laying out the operands of an instruction changes nothing but the spaces in them. -/
theorem compose_keepsTokens (hkind : l.kind = .instruction) (hsymbol : l.symbol = none) :
    l.KeepsTokens opts where
  text_eq := by rw [behindMnemonic_compose hkind hsymbol, filter_textOf]
  tokens_eq := by rw [behindMnemonic_compose hkind hsymbol, tokens_textOf]
  filter_eq := by rw [behindMnemonic_compose hkind hsymbol, filter_hasToken]
  text_ne := by
    rw [behindMnemonic_compose hkind hsymbol]
    exact text_ne_of_mem_operandSegments ' ' _
  again hkind' hsymbol' hoperands := by
    rw [behindMnemonic_compose hkind' hsymbol', hoperands, behindMnemonic_compose hkind hsymbol,
      operandSegments_textOf]

def loadLine : Line where
  number := 0
  kind := .instruction
  address := 0x1050
  bytes := [0x8b, 0x44, 0x8d, 0xf8]
  mnemonic := "mov"
  operands := "eax,dword ptr[rbp - 8 ]"

theorem compose_keepsTokens_load :
    loadLine.kind = .instruction ∧ loadLine.symbol = none ∧
      textOf (behindMnemonic (loadLine.compose {} none)) =
        " eax, dword ptr [rbp - 8]".toList ∧
      (behindMnemonic (loadLine.compose {} none)).filter hasToken =
        [{ text := "eax", tag := .register }, { text := "dword", tag := .operand },
         { text := "ptr", tag := .operand }, { text := "rbp", tag := .stackRegister },
         { text := "-", tag := .operand }, { text := "8", tag := .number }] := by
  have h : loadLine.KeepsTokens {} := compose_keepsTokens rfl rfl
  exact ⟨rfl, rfl, by decide, h.filter_eq.trans (by decide)⟩

end Line
end Disassembly
