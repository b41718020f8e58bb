import Disassembly.Line.Basic

/-! # Display text

A line is composed of segments of text, each with a tag that says how to paint it. Address, bytes,
characters and rails are columns of fixed width; operand text is split into tokens.
-/

namespace Disassembly

inductive Tag where
  | address
  /-- What stands between columns. -/
  | column
  | bytes
  /-- Bytes shown as characters. -/
  | text
  | rail
  | mnemonic
  | jump
  | call
  | push
  | register
  | stackRegister
  | number
  | function
  | data
  | punctuation
  | operand
  | label
  | comment
  | error
  deriving DecidableEq, Repr

structure Segment where
  text : String
  tag : Tag
  deriving DecidableEq, Repr

structure DisplayLine where
  segments : List Segment
  deriving DecidableEq, Repr

namespace DisplayLine

def ofSegments (segments : List Segment) : DisplayLine :=
  { segments := segments.filter (·.text ≠ "") }

def text (d : DisplayLine) : String :=
  String.join (d.segments.map (·.text))

def width (d : DisplayLine) : Nat :=
  d.segments.foldl (fun width s => width + s.text.length) 0

def find? (tag : Tag) (d : DisplayLine) : Option Segment :=
  d.segments.find? (·.tag = tag)

end DisplayLine

structure DisplayOptions where
  /-- How many bytes of an instruction are shown. -/
  bytesShown : Nat := 8
  rails : Bool := true
  /-- The column that comments begin at, if the line is not longer. -/
  commentColumn : Nat := 96
  deriving DecidableEq, Repr

namespace Line

def bytesColumn (count : Nat) (bytes : List UInt8) : String :=
  String.join <| (List.range count).map fun i =>
    match bytes[i]? with
    | some b => Text.hexByte b ++ " "
    | none => "   "

def shownChar (b : UInt8) : Char :=
  if 0x20 ≤ b ∧ b < 0x7f then Char.ofNat b.toNat else '.'

def charsColumn (count : Nat) (bytes : List UInt8) : String :=
  String.ofList <| (List.range count).map fun i =>
    match bytes[i]? with
    | some b => shownChar b
    | none => ' '

/-- The rail column: a bar for each lane, and on a line with an end of an arrow a shaft in the lanes
that are free and the head in the last. -/
def railsColumn (r : Rails) : String :=
  let free := if r.isStart || r.isEnd then '-' else ' '
  let lanes := (List.range Rails.lanes).map fun lane => if r.hasLane lane then '|' else free
  let head := if r.isStart then ['<'] else if r.isEnd then ['>'] else lanes.drop (Rails.lanes - 1)
  String.ofList (lanes.take (Rails.lanes - 1) ++ head)

def mnemonicTag (mnemonic : String) : Tag :=
  if mnemonic = "call" then .call
  else if mnemonic = "push" ∨ mnemonic = "pop" then .push
  else if mnemonic.toList.head? = some 'j' then .jump
  else .mnemonic

def isDigit (c : Char) : Bool :=
  '0' ≤ c && c ≤ '9'

/-- Whether `token` is a number: decimal, or anything behind `0x`. -/
def isNumberToken (token : List Char) : Bool :=
  (['0', 'x'].isPrefixOf token && 2 < token.length) || (!token.isEmpty && token.all isDigit)

def isLabelToken (token : List Char) : Bool :=
  ["sub_", "jmp_", "offset_"].any fun stem => stem.toList.isPrefixOf token

/-- How a short name in lower case is painted: registers are told by their last letter. -/
def registerTag (token : List Char) : Tag :=
  if token.length < 4 && token.all fun c => ('a' ≤ c && c ≤ 'z') || isDigit c then
    match token.getLast? with
    | some 'x' | some 's' | some 'l' | some 'h' => .register
    | some 'p' | some 'i' => .stackRegister
    | _ => .operand
  else .operand

def operandTag (token : List Char) : Tag :=
  if isNumberToken token then .number
  else if isLabelToken token then .label
  else registerTag token

def isSeparator (c : Char) : Bool :=
  c == ' ' || c == ',' || c == '[' || c == ']'

/-- The segments of a token behind the separator `last`; a space goes before it except right inside
a bracket. -/
def tokenSegments (last : Char) (token : List Char) : List Segment :=
  if token.isEmpty then []
  else
    let space : List Segment := if last = '[' then [] else [{ text := " ", tag := .operand }]
    space ++ [{ text := String.ofList token, tag := operandTag token }]

def separatorSegments (c : Char) : List Segment :=
  if c = '[' then [{ text := " [", tag := .punctuation }]
  else if c = ' ' then []
  else [{ text := String.singleton c, tag := .punctuation }]

/-- The segments of operand text that goes on behind the separator `last` and the unfinished token
`token`, which has its newest character first. -/
def operandSegments (last : Char) (token : List Char) : List Char → List Segment
  | [] => tokenSegments last token.reverse
  | c :: cs =>
    if isSeparator c then
      tokenSegments last token.reverse ++ separatorSegments c ++ operandSegments c [] cs
    else operandSegments last (c :: token) cs

def columns (opts : DisplayOptions) (l : Line) : List Segment :=
  let rails : List Segment :=
    if opts.rails then [{ text := railsColumn l.rails, tag := .rail }] else []
  [{ text := "|", tag := .column },
   { text := bytesColumn opts.bytesShown l.bytes, tag := .bytes },
   { text := "|", tag := .column },
   { text := charsColumn opts.bytesShown l.bytes, tag := .text },
   { text := " |", tag := .column }] ++ rails

def symbolTag (s : Mapping) : Tag :=
  match s.kind with
  | .function => .function
  | .data => .data

def instructionSegments (l : Line) : List Segment :=
  let operands : List Segment := match l.symbol with
    | some s => [{ text := " ", tag := .operand }, { text := s.name, tag := symbolTag s }]
    | none => operandSegments ' ' [] l.operands.toList
  [{ text := "  ", tag := .column },
   { text := Text.padEnd 6 l.mnemonic, tag := mnemonicTag l.mnemonic }] ++ operands

def bodySegments (opts : DisplayOptions) (l : Line) : List Segment :=
  match l.kind with
  | .failed e => [{ text := s!"error: {e.message}", tag := .error }]
  | .label label =>
    l.columns opts ++ [{ text := label, tag := .label }, { text := " <--", tag := .label }]
  | .instruction => l.columns opts ++ l.instructionSegments

def composeBody (opts : DisplayOptions) (l : Line) : DisplayLine :=
  .ofSegments ({ text := s!"0x{Text.hexPadded 8 l.address} ", tag := .address } ::
    l.bodySegments opts)

/-- Composes the text of a line, with a comment behind it. A failed line shows no comment. -/
def compose (opts : DisplayOptions) (l : Line) (comment : Option String) : DisplayLine :=
  let body := l.composeBody opts
  match l.kind, comment with
  | .failed _, _ | _, none => body
  | _, some comment =>
    let pad := max (opts.commentColumn - body.width) 1
    .ofSegments (body.segments ++
      [{ text := String.ofList (List.replicate pad ' '), tag := .column },
       { text := s!"; {comment}", tag := .comment }])

end Line
end Disassembly
