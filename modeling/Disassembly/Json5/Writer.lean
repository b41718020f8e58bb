/-! # Writing JSON

Values are written in the compact form of JSON, without spaces.
-/

namespace Disassembly.Json5

def writeChar (c : Char) : List Char :=
  if c = '"' ∨ c = '\\' ∨ c = '/' then ['\\', c]
  else if c = '\n' then ['\\', 'n']
  else if c = '\r' then ['\\', 'r']
  else if c = '\t' then ['\\', 't']
  else if c = '\x08' then ['\\', 'b']
  else if c = '\x0c' then ['\\', 'f']
  else [c]

def writeString (s : String) : String :=
  String.ofList ('"' :: s.toList.flatMap writeChar ++ ['"'])

def writeBool (b : Bool) : String :=
  if b then "true" else "false"

def writeArray (items : List String) : String :=
  "[" ++ String.intercalate "," items ++ "]"

def writeObject (members : List (String × String)) : String :=
  let written := members.map fun (key, v) => writeString key ++ ":" ++ v
  "\x7b" ++ String.intercalate "," written ++ "\x7d"

end Disassembly.Json5
