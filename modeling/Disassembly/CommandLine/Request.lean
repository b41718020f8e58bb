import Disassembly.Arch
import Disassembly.CommandLine.Words

/-! # Requests

What the command line asks for: a zone of a file, and what is to be told about it.
-/

namespace Disassembly.CommandLine

inductive Command where
  | index
  | view (line count : Nat) (rails : Bool)
  /-- The flat text of the zone, in a file if one is named. -/
  | exportText (output : Option String)
  | follow (line : Nat)
  | seek (offset : Nat)
  deriving DecidableEq, Repr

/-- A zone, as it is described on the command line, and what is asked about it. -/
structure Request where
  file : String
  start : Nat
  size : Option Nat
  entry : Option Nat
  arch : Arch
  config : Option String
  symbols : Option String
  /-- The address at which the zone is loaded. -/
  base : Option Nat
  deepScan : Bool
  noDeepScan : Bool
  command : Command
  deriving DecidableEq, Repr

def grammar : Grammar where
  options := ["start", "size", "entry", "arch", "config", "symbols", "va-base"]
  usual := ["start", "arch"]
  flags := ["deep-scan", "no-deep-scan"]
  commands := ["index", "view", "export", "follow", "seek", "help"]
  places := 1

def commandGrammar (command : String) : Grammar :=
  if command = "view" then
    { options := ["line", "count"], usual := ["line", "count"], flags := ["no-rails"] }
  else if command = "export" then { options := ["output"], letters := [('o', "output")] }
  else if command = "follow" ∨ command = "seek" then { places := 1 }
  else {}

def number? (read : String → Except Text.NumeralFault Nat) (value : Option String) :
    Except Stop (Option Nat) :=
  match value with
  | none => .ok none
  | some text =>
    match read text with
    | .ok n => .ok (some n)
    | .error fault => .error (.misuse fault.message)

/-- The only word that stands for itself. -/
def onlyPlace (ws : Words) : Except Stop String :=
  match ws.places with
  | [word] => .ok word
  | _ => .error (.misuse "an argument is missing")

/-- The number that stands for itself. -/
def placeNumber (read : String → Except Text.NumeralFault Nat) (ws : Words) : Except Stop Nat := do
  match read (← onlyPlace ws) with
  | .ok n => .ok n
  | .error fault => .error (.misuse fault.message)

def checkWords (g : Grammar) (ws : Words) : Except Stop Unit :=
  match ws.misuse? g with
  | some reason => .error (.misuse reason)
  | none => .ok ()

/-- Why nothing is carried out when help is asked for by a word. Only a command may be named behind
it, and no command has commands of its own. -/
def helpOn : List String → Stop
  | [] => .help
  | [word] => if word ∈ grammar.commands then .help else .misuse s!"unknown command {word}"
  | _ => .misuse "unknown command"

def readCommand (name : String) (rest : List String) : Except Stop Command := do
  if name = "help" then throw (helpOn rest)
  let ws ← readWords (commandGrammar name) .anything {} rest
  checkWords (commandGrammar name) ws
  if name = "index" then return .index
  else if name = "view" then
    let line ← number? Text.readLineNumber (ws.value? "line")
    let count ← number? Text.readLineNumber (ws.value? "count")
    return .view (line.getD 0) (count.getD 40) (!ws.has "no-rails")
  else if name = "export" then return .exportText (ws.value? "output")
  else if name = "follow" then return .follow (← placeNumber Text.readLineNumber ws)
  else return .seek (← placeNumber Text.readArgument ws)

/-- Which command's help or version is asked for, if it is that of a command. -/
structure Refusal where
  stop : Stop
  command : Option String := none
  deriving DecidableEq, Repr

def readRequest (args : List String) : Except Refusal Request :=
  match readWords grammar .anything {} args with
  | .error stop => .error { stop }
  | .ok ws =>
    match ws.command with
    | none => .error { stop := .misuse "a command is missing" }
    | some (name, rest) =>
      match readCommand name rest with
      | .error stop => .error { stop, command := name }
      | .ok command =>
        let request : Except Stop Request := do
          checkWords grammar ws
          return {
            file := ← onlyPlace ws
            start := (← number? Text.readArgument (ws.value? "start")).getD 0
            size := ← number? Text.readArgument (ws.value? "size")
            entry := ← number? Text.readArgument (ws.value? "entry")
            arch := .ofName ((ws.value? "arch").getD "x64")
            config := ws.value? "config"
            symbols := ws.value? "symbols"
            base := ← number? Text.readArgument (ws.value? "va-base")
            deepScan := ws.has "deep-scan"
            noDeepScan := ws.has "no-deep-scan"
            command }
        request.mapError fun stop => { stop }

end Disassembly.CommandLine
