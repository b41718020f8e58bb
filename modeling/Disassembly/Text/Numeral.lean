import Disassembly.Text.Blank

/-! # Written numbers

Numbers are written in hexadecimal or decimal. Reading goes over the digits once, from the most
significant, and stops at the first character that is no digit or that makes the number too large,
whichever comes first.
-/

namespace Disassembly.Text

/-- The hexadecimal form of `n`, in lower case and without padding. -/
def hex (n : Nat) : String :=
  String.ofList (Nat.toDigits 16 n)

def padStart (width : Nat) (fill : Char) (cs : List Char) : List Char :=
  List.replicate (width - cs.length) fill ++ cs

def padEnd (width : Nat) (text : String) : String :=
  text ++ String.ofList (List.replicate (width - text.length) ' ')

/-- The hexadecimal form of `n`, with zeros in front up to `width` digits. -/
def hexPadded (width n : Nat) : String :=
  String.ofList (padStart width '0' (Nat.toDigits 16 n))

def hexByte (b : UInt8) : String :=
  hexPadded 2 b.toNat

def digit? (base : Nat) (c : Char) : Option Nat :=
  let value :=
    if '0' ≤ c ∧ c ≤ '9' then some (c.toNat - '0'.toNat)
    else if 'a' ≤ c ∧ c ≤ 'f' then some (c.toNat - 'a'.toNat + 10)
    else if 'A' ≤ c ∧ c ≤ 'F' then some (c.toNat - 'A'.toNat + 10)
    else none
  value.filter (· < base)

inductive NumeralFault where
  | empty
  | invalidDigit
  | tooLarge
  deriving DecidableEq, Repr

def NumeralFault.message : NumeralFault → String
  | .empty => "cannot parse integer from empty string"
  | .invalidDigit => "invalid digit found in string"
  | .tooLarge => "number too large to fit in target type"

/-- Reads the digits `cs` of `base` behind a number that reads as `n` so far; the number must stay
below `bound`. -/
def readDigits (base bound : Nat) (n : Nat) : List Char → Except NumeralFault Nat
  | [] => .ok n
  | c :: cs =>
    match digit? base c with
    | none => .error .invalidDigit
    | some d =>
      if n * base + d < bound then readDigits base bound (n * base + d) cs
      else .error .tooLarge

/-- Reads one or more digits behind an optional plus sign. -/
def readUnsigned (base bound : Nat) : List Char → Except NumeralFault Nat
  | [] => .error .empty
  | ['+'] => .error .invalidDigit
  | '+' :: cs => readDigits base bound 0 cs
  | cs => readDigits base bound 0 cs

def wordBound : Nat := 1 <<< 64

def halfWordBound : Nat := 1 <<< 32

/-- Reads a number given as an argument: decimal, or hexadecimal behind `0x`, `0X` or `$`. Blanks
around it are ignored. -/
def readArgument (text : String) : Except NumeralFault Nat :=
  match trim text.toList with
  | '0' :: 'x' :: cs => readUnsigned 16 wordBound cs
  | '0' :: 'X' :: cs => readUnsigned 16 wordBound cs
  | '$' :: cs => readUnsigned 16 wordBound cs
  | cs => readUnsigned 10 wordBound cs

/-- Reads a plain decimal 32-bit number, such as a line or a count. -/
def readLineNumber (text : String) : Except NumeralFault Nat :=
  readUnsigned 10 halfWordBound text.toList

/-- The name made up for `address`: `stem` and at least eight hexadecimal digits. -/
def label (stem : String) (address : Nat) : String :=
  stem ++ hexPadded 8 address

end Disassembly.Text
