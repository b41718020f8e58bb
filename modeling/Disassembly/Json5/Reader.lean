import Disassembly.Json5.Value
import Disassembly.Text.Numeral
import Disassembly.Text.Word

/-! # Reading JSON5

The reader goes over the characters of a text once. Each step takes what it reads off the front and
gives back the rest; a step that has no answer makes the whole text ill-formed.
-/

namespace Disassembly.Json5

def isLineEnd (c : Char) : Bool :=
  c == '\n' || c == '\r' || c == '\u2028' || c == '\u2029'

/-- Whether `c` may stand between any two tokens: any blank but the control character for a next
line, and a mark of the byte order. -/
def isSpace (c : Char) : Bool :=
  c == '\ufeff' || (Text.isBlank c && c != '\x85')

inductive Skipping where
  | spaces
  | lineComment
  | blockComment

/-- Skips spaces and comments; there is no answer if a comment is not closed. -/
def skipIn : Skipping → List Char → Option (List Char)
  | .spaces, '/' :: '/' :: cs => skipIn .lineComment cs
  | .spaces, '/' :: '*' :: cs => skipIn .blockComment cs
  | .spaces, c :: cs => if isSpace c then skipIn .spaces cs else some (c :: cs)
  | .lineComment, c :: cs => skipIn (if isLineEnd c then .spaces else .lineComment) cs
  | .blockComment, '*' :: '/' :: cs => skipIn .spaces cs
  | .blockComment, _ :: cs => skipIn .blockComment cs
  | .blockComment, [] => none
  | _, [] => some []

def skip (cs : List Char) : Option (List Char) :=
  skipIn .spaces cs

/-- The value of some hexadecimal digits; none if there is another character among them. -/
def hexValue? (cs : List Char) : Option Nat :=
  cs.foldlM (fun n c => (Text.digit? 16 c).map (n * 16 + ·)) 0

def charOf? (n : Nat) : Option Char :=
  if n.isValidChar then some (Char.ofNat n) else none

/-- The text so far, with one more character; the newest is first. There is no text once an escape
has stood for no character. -/
def extend (text : Option (List Char)) (c : Option Char) : Option (List Char) :=
  match text, c with
  | some cs, some c => some (c :: cs)
  | _, _ => none

def finishText (text : Option (List Char)) : Option String :=
  text.map fun cs => String.ofList cs.reverse

def escaped? (c : Char) : Option Char :=
  if c = 'b' then some '\x08'
  else if c = 'f' then some '\x0c'
  else if c = 'n' then some '\n'
  else if c = 'r' then some '\r'
  else if c = 't' then some '\t'
  else if c = 'v' then some '\x0b'
  else if c = '0' then some '\x00'
  else if c = 'x' ∨ c = 'u' ∨ ('1' ≤ c ∧ c ≤ '9') then none
  else some c

def readString (quote : Char) (text : Option (List Char)) :
    List Char → Option (Option String × List Char)
  | '\\' :: 'u' :: a :: b :: c :: d :: cs =>
    match hexValue? [a, b, c, d] with
    | some n => readString quote (extend text (charOf? n)) cs
    | none => none
  | '\\' :: 'x' :: a :: b :: cs =>
    match hexValue? [a, b] with
    | some n => readString quote (extend text (charOf? n)) cs
    | none => none
  | '\\' :: '\r' :: '\n' :: cs => readString quote text cs
  | '\\' :: c :: cs =>
    if isLineEnd c then readString quote text cs
    else
      match escaped? c with
      | some c => readString quote (extend text (some c)) cs
      | none => none
  | c :: cs =>
    if c = quote then some (finishText text, cs)
    else if c = '\\' ∨ isLineEnd c then none
    else readString quote (extend text (some c)) cs
  | [] => none

def beginsWord (c : Char) : Bool :=
  c == '$' || c == '_' || Text.isLetter c

def continuesWord (c : Char) : Bool :=
  beginsWord c || Text.isWordPart c || c == '\u200c' || c == '\u200d'

def readWord (text : Option (List Char)) : List Char → Option (Option String × List Char)
  | '\\' :: 'u' :: a :: b :: c :: d :: cs =>
    match hexValue? [a, b, c, d] with
    | some n => readWord (extend text (charOf? n)) cs
    | none => none
  | c :: cs =>
    if continuesWord c then readWord (extend text (some c)) cs
    else some (finishText text, c :: cs)
  | [] => some (finishText text, [])

def readKey : List Char → Option (Option String × List Char)
  | '"' :: cs => readString '"' (some []) cs
  | '\'' :: cs => readString '\'' (some []) cs
  | '\\' :: cs => readWord (some []) ('\\' :: cs)
  | c :: cs => if beginsWord c then readWord (some []) (c :: cs) else none
  | [] => none

def spanDigits (cs : List Char) : List Char × List Char :=
  cs.span fun c => '0' ≤ c && c ≤ '9'

def decimalValue (digits : List Char) : Nat :=
  digits.foldl (fun n c => n * 10 + (c.toNat - '0'.toNat)) 0

def readExponentDigits (negative : Bool) (cs : List Char) : Option (Int × List Char) :=
  match spanDigits cs with
  | ([], _) => none
  | (digits, rest) =>
    let n : Int := decimalValue digits
    some (if negative then -n else n, rest)

/-- Reads an exponent, if a whole one is there. -/
def readExponent : List Char → Option (Int × List Char)
  | 'e' :: cs | 'E' :: cs =>
    match cs with
    | '+' :: cs => readExponentDigits false cs
    | '-' :: cs => readExponentDigits true cs
    | cs => readExponentDigits false cs
  | _ => none

/-- A decimal number of these digits before and behind its point, with the exponent that follows. -/
def withExponent (whole fraction : List Char) (pointed : Bool) (cs : List Char) :
    Magnitude × List Char :=
  let mantissa := decimalValue (whole ++ fraction)
  match readExponent cs with
  | some (e, rest) => (.decimal mantissa (e - fraction.length) false, rest)
  | none => (.decimal mantissa (-(fraction.length : Int)) (!pointed), cs)

/-- Reads a decimal number. It does not begin with more than one zero. -/
def readDecimal (cs : List Char) : Option (Magnitude × List Char) :=
  let (whole, rest) := match cs with
    | '0' :: cs => (['0'], cs)
    | cs => spanDigits cs
  match rest with
  | '.' :: behind =>
    let (fraction, rest) := spanDigits behind
    if whole = [] ∧ fraction = [] then none else some (withExponent whole fraction true rest)
  | rest => if whole = [] then none else some (withExponent whole [] false rest)

def readHex (cs : List Char) : Option (Magnitude × List Char) :=
  let (digits, rest) := cs.span fun c => (Text.digit? 16 c).isSome
  if digits = [] then none
  else (hexValue? digits).map fun n => (.hex n, rest)

def readMagnitude : List Char → Option (Magnitude × List Char)
  | '0' :: 'x' :: cs | '0' :: 'X' :: cs => readHex cs
  | 'I' :: 'n' :: 'f' :: 'i' :: 'n' :: 'i' :: 't' :: 'y' :: cs => some (.infinity, cs)
  | 'N' :: 'a' :: 'N' :: cs => some (.nan, cs)
  | cs => readDecimal cs

def readNumber (cs : List Char) : Option (Value × List Char) :=
  let (sign, cs) := match cs with
    | '+' :: cs => (Sign.plus, cs)
    | '-' :: cs => (Sign.minus, cs)
    | cs => (Sign.none, cs)
  (readMagnitude cs).map fun (magnitude, rest) => (.number { sign, magnitude }, rest)

mutual

/-- Reads a value that begins right here, in at most `fuel` nested steps. -/
def readValue (fuel : Nat) (cs : List Char) : Option (Value × List Char) :=
  match fuel, cs with
  | 0, _ => none
  | _ + 1, 'n' :: 'u' :: 'l' :: 'l' :: cs => some (.null, cs)
  | _ + 1, 't' :: 'r' :: 'u' :: 'e' :: cs => some (.bool true, cs)
  | _ + 1, 'f' :: 'a' :: 'l' :: 's' :: 'e' :: cs => some (.bool false, cs)
  | _ + 1, '"' :: cs => (readString '"' (some []) cs).map fun (s, rest) => (.string s, rest)
  | _ + 1, '\'' :: cs => (readString '\'' (some []) cs).map fun (s, rest) => (.string s, rest)
  | fuel + 1, '[' :: cs => (skip cs).bind (readItems fuel [])
  | fuel + 1, '\x7b' :: cs => (skip cs).bind (readMembers fuel [])
  | _ + 1, cs => readNumber cs

/-- Reads the items of an array behind those in `done`, which has the newest first. A comma may
stand behind the last. -/
def readItems (fuel : Nat) (done : List Value) (cs : List Char) : Option (Value × List Char) :=
  match fuel, cs with
  | 0, _ => none
  | _ + 1, ']' :: cs => some (.array done.reverse, cs)
  | fuel + 1, cs => do
    let (item, cs) ← readValue fuel cs
    match ← skip cs with
    | ',' :: cs => readItems fuel (item :: done) (← skip cs)
    | ']' :: cs => some (.array (item :: done).reverse, cs)
    | _ => none

/-- Reads the members of an object behind those in `done`, which has the newest first. A comma may
stand behind the last. -/
def readMembers (fuel : Nat) (done : List (Option String × Value)) (cs : List Char) :
    Option (Value × List Char) :=
  match fuel, cs with
  | 0, _ => none
  | _ + 1, '\x7d' :: cs => some (.object done.reverse, cs)
  | fuel + 1, cs => do
    let (key, cs) ← readKey cs
    match ← skip cs with
    | ':' :: cs =>
      let (value, cs) ← readValue fuel (← skip cs)
      match ← skip cs with
      | ',' :: cs => readMembers fuel ((key, value) :: done) (← skip cs)
      | '\x7d' :: cs => some (.object ((key, value) :: done).reverse, cs)
      | _ => none
    | _ => none

end

/-- Reads a text of one value. Every nested step is behind a character of its own, or is the first
after one, so twice the length of the text is enough fuel. -/
def readText? (cs : List Char) : Option Value := do
  let (value, rest) ← readValue (2 * cs.length + 2) (← skip cs)
  match ← skip rest with
  | [] => some value
  | _ => none

def parse (text : String) : Except Fault Value :=
  match readText? text.toList with
  | some value => .ok value
  | none => .error .notWellFormed

end Disassembly.Json5
