import Disassembly.Json5.Binary64

/-! # Values of a settings file

What a JSON5 text says. Numbers are kept as they are written, because what a number is good for
depends on where it stands. A string that has an escape for no character is kept without its text.
-/

namespace Disassembly.Json5

inductive Sign where
  | none
  | plus
  | minus
  deriving DecidableEq, Repr

inductive Magnitude where
  | infinity
  | nan
  | hex (value : Nat)
  /-- `mantissa * 10 ^ exponent`; `isWhole` if neither a point nor an exponent is written. -/
  | decimal (mantissa : Nat) (exponent : Int) (isWhole : Bool)
  deriving DecidableEq, Repr

structure Number where
  sign : Sign
  magnitude : Magnitude
  deriving DecidableEq, Repr

inductive Value where
  | null
  | bool (b : Bool)
  | number (n : Number)
  | string (s : Option String)
  | array (items : List Value)
  | object (members : List (Option String × Value))

inductive Fault where
  | notWellFormed
  | badNumber
  | badEscape
  | expected (what : String)
  | misplacedText (text what : String)
  | missingField (name : String)
  | repeatedField (name : String)
  | unknownVariant (name known : String)
  deriving DecidableEq, Repr

def quoted (text : String) : String :=
  let shown (c : Char) : List Char :=
    if c = '"' ∨ c = '\\' then ['\\', c]
    else if c = '\n' then ['\\', 'n']
    else if c = '\r' then ['\\', 'r']
    else if c = '\t' then ['\\', 't']
    else if c = '\x00' then ['\\', '0']
    else [c]
  String.ofList ('"' :: text.toList.flatMap shown ++ ['"'])

def Fault.message : Fault → String
  | .notWellFormed => "the text is not well-formed"
  | .badNumber => "number out of range"
  | .badEscape => "escape sequence for no character"
  | .expected what => s!"expected {what}"
  | .misplacedText text what => "invalid type: string " ++ quoted text ++ ", expected " ++ what
  | .missingField name => s!"missing field {name}"
  | .repeatedField name => s!"repeated field {name}"
  | .unknownVariant name known => "unknown variant `" ++ name ++ "`, expected " ++ known

namespace Number

/-- The number as a natural number of at most `limit`: its fraction is cut off, and what is out of
range becomes the nearer end of the range. Hexadecimal numbers have 32 bits and no sign. -/
def toNat? (limit : Nat) (n : Number) : Option Nat :=
  match n.sign, n.magnitude with
  | .plus, .infinity | .plus, .nan => none
  | .none, .infinity => some limit
  | .minus, .infinity => some 0
  | _, .nan => some 0
  | .none, .hex value => if value < 1 <<< 32 then some (min value limit) else none
  | _, .hex _ => none
  | sign, .decimal mantissa exponent _ =>
    (decimalFloor? mantissa exponent).map fun whole =>
      if sign = .minus then 0 else min whole limit

/-- Whether a number that is not used can be read all the same. Whole numbers have 64 bits and a
sign there, and only finite numbers can be read. -/
def isReadable (n : Number) : Bool :=
  match n.magnitude with
  | .infinity | .nan => false
  | .decimal mantissa _ true =>
    if n.sign = .minus then mantissa ≤ 1 <<< 63 else mantissa < 1 <<< 63
  | .hex _ | .decimal _ _ false => (n.toNat? 0).isSome

end Number

namespace Value

mutual

def isReadable : Value → Bool
  | .null | .bool _ => true
  | .number n => n.isReadable
  | .string s => s.isSome
  | .array items => areReadable items
  | .object members => membersAreReadable members

def areReadable : List Value → Bool
  | [] => true
  | v :: vs => v.isReadable && areReadable vs

def membersAreReadable : List (Option String × Value) → Bool
  | [] => true
  | (key, v) :: ms => key.isSome && v.isReadable && membersAreReadable ms

end

def asNat (limit : Nat) : Value → Except Fault Nat
  | .number n => match n.toNat? limit with
    | some value => .ok value
    | none => .error .badNumber
  | _ => .error (.expected "a number")

def asBool : Value → Except Fault Bool
  | .bool b => .ok b
  | .string (some s) => .error (.misplacedText s "a boolean")
  | _ => .error (.expected "a boolean")

def asString : Value → Except Fault String
  | .string (some s) => .ok s
  | .string none => .error .badEscape
  | _ => .error (.expected "a string")

def asArray (what : String) : Value → Except Fault (List Value)
  | .array items => .ok items
  | .string (some s) => .error (.misplacedText s what)
  | _ => .error (.expected what)

/-- The name of a choice: a string, or the first key of an object. -/
def asChoice : Value → Except Fault String
  | .object ((key, _) :: _) => asString (.string key)
  | .object [] => .error (.expected "a choice")
  | v => v.asString

/-- Puts a member among the fields known by `names`; a field may be set only once. -/
def setField (names : List String) (fields : List (Option Value)) :
    Option String × Value → Except Fault (List (Option Value))
  | (none, _) => .error .badEscape
  | (some key, v) =>
    match names.findIdx? (· == key) with
    | none => if v.isReadable then .ok fields else .error .badNumber
    | some i =>
      match fields[i]? with
      | some (some _) => .error (.repeatedField key)
      | _ => .ok (fields.set i (some v))

/-- The values of the fields known by `names`: members of an object, of which others are not used,
or the items of an array in the order of the names. -/
def fields (names : List String) : Value → Except Fault (List (Option Value))
  | .array items => .ok ((List.range names.length).map (items[·]?))
  | .object members => members.foldlM (setField names) (names.map fun _ => none)
  | _ => .error (.expected "an object")

def required (name : String) (v : Option Value) : Except Fault Value :=
  match v with
  | some v => .ok v
  | none => .error (.missingField name)

end Value
end Disassembly.Json5
