import Disassembly.CommandLine.Similarity

/-! # The words of a command line

A command line has options, which take a value, flags, which take none, and words that stand for
themselves by their place. A command, if there are any, ends what is read here; the words behind it
are its own. Some faults end the reading at once and others are only found at the end, which matters
because asking for help or the version also ends it.
-/

namespace Disassembly.CommandLine

structure Grammar where
  options : List String := []
  /-- Options that have a usual value, which counts if none is given. -/
  usual : List String := []
  flags : List String := []
  /-- Options that have a name of one letter too. -/
  letters : List (Char × String) := []
  commands : List String := []
  places : Nat := 0

/-- Why a command line is not carried out. -/
inductive Stop where
  | help
  | version
  | misuse (reason : String)
  deriving DecidableEq, Repr

structure Words where
  /-- The options in order, newest first, with their values. -/
  options : List (String × Option String) := []
  flags : List String := []
  places : List String := []
  command : Option (String × List String) := none

namespace Words

def addOption (name : String) (value : Option String) (ws : Words) : Words :=
  { ws with options := (name, value) :: ws.options }

def value? (name : String) (ws : Words) : Option String :=
  (ws.options.lookup name).join

def has (name : String) (ws : Words) : Bool :=
  ws.flags.contains name

/-- What is wrong with the words as a whole: an option that has no value, or something given twice.
-/
def misuse? (g : Grammar) (ws : Words) : Option String :=
  let names := ws.options.map (·.1) ++ ws.flags
  if ws.options.any fun (name, value) => value.isNone && name ∉ g.usual then
    some "an option has no value"
  else if names.eraseDups.length < names.length then some "an option is given more than once"
  else none

end Words

/-- The value behind an equals sign; further ones are left out. -/
def valueBehind (cs : List Char) : String :=
  String.ofList (cs.dropWhile (· == '='))

/-- Reads a word that begins with two dashes. The first part of the result tells whether a value has
to follow. -/
def readLong (g : Grammar) (word : List Char) (ws : Words) : Except Stop (Bool × Words) :=
  let body := word.dropWhile (· == '-')
  let name := String.ofList (body.takeWhile (· != '='))
  if name ∈ g.options then
    match body.dropWhile (· != '=') with
    | [] => .ok (true, ws.addOption name none)
    | cs => .ok (false, ws.addOption name (some (valueBehind cs)))
  else if name = "help" then .error .help
  else if name = "version" then .error .version
  else if name ∈ g.flags then .ok (false, { ws with flags := name :: ws.flags })
  else .error (.misuse s!"unexpected argument {name}")

/-- Reads a word that begins with one dash. The first part of the result tells whether a value has
to follow. -/
def readLetters (g : Grammar) (word : List Char) (ws : Words) : Except Stop (Bool × Words) :=
  match word.dropWhile (· == '-') with
  | [] => .error (.misuse "unexpected argument")
  | letter :: behind =>
    match g.letters.lookup letter with
    | some name =>
      if behind = [] then .ok (true, ws.addOption name none)
      else .ok (false, ws.addOption name (some (valueBehind behind)))
    | none =>
      if letter = 'h' then .error .help
      else if letter = 'V' then .error .version
      else .error (.misuse s!"unexpected argument {letter}")

/-- Reads a word that stands for itself. One that looks like a misspelt command is refused. -/
def readPlace (g : Grammar) (word : String) (ws : Words) : Except Stop Words :=
  if g.commands.any fun command => areSimilar word.toList command.toList then
    .error (.misuse s!"unknown command {word}")
  else if ws.places.length < g.places then .ok { ws with places := word :: ws.places }
  else .error (.misuse s!"unexpected argument {word}")

def giveValue (value : String) (ws : Words) : Words :=
  match ws.options with
  | (name, _) :: rest => { ws with options := (name, some value) :: rest }
  | [] => ws

def isDashed (word : List Char) : Bool :=
  word.head? == some '-' && 1 < word.length

inductive Expecting where
  | anything
  | value
  /-- Behind two dashes, words only stand for themselves. -/
  | places
  deriving DecidableEq, Repr

/-- Reads a word that begins with a dash; two dashes alone turn the others into plain words. -/
def readDashed (g : Grammar) (word : List Char) (ws : Words) : Except Stop (Expecting × Words) :=
  if word = ['-', '-'] then .ok (.places, ws)
  else
    let read := if ['-', '-'].isPrefixOf word then readLong else readLetters
    (read g word ws).map fun (needsValue, ws) => (if needsValue then .value else .anything, ws)

def readWords (g : Grammar) : Expecting → Words → List String → Except Stop Words
  | _, ws, [] => .ok ws
  | .places, ws, word :: rest => do readWords g .places (← readPlace g word ws) rest
  | expecting, ws, word :: rest =>
    if expecting = .anything ∧ word ∈ g.commands then .ok { ws with command := some (word, rest) }
    else if isDashed word.toList then do
      let (expecting, ws) ← readDashed g word.toList ws
      readWords g expecting ws rest
    else if expecting = .value then readWords g .anything (giveValue word ws) rest
    else do readWords g .anything (← readPlace g word ws) rest

end Disassembly.CommandLine
