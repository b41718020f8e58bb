/-! # Similar words

How alike two words are, after Jaro and Winkler: the characters they share within a short distance
of each other, less those that are out of order, with a bonus for a common beginning. The measure is
a fraction, so comparing it to a bound needs no rounding.
-/

namespace Disassembly.CommandLine

structure Matching where
  /-- Which characters of the second word have been used. -/
  used : List Bool
  matched : Nat := 0
  /-- How many matches are before the one that was found just before them. -/
  transposed : Nat := 0
  last : Nat := 0

/-- The first place from `low` through `high` at which the second word has `c`, not used yet. -/
def Matching.placeOf? (m : Matching) (word : List Char) (c : Char) (low high : Nat) : Option Nat :=
  (List.range word.length).find? fun j =>
    low ≤ j && j ≤ high && word[j]? == some c && m.used[j]? == some false

def Matching.step (word : List Char) (reach : Nat) (m : Matching) (c : Char) (i : Nat) : Matching :=
  match m.placeOf? word c (i - reach) (i + reach) with
  | none => m
  | some j =>
    { used := m.used.set j true
      matched := m.matched + 1
      transposed := if j < m.last then m.transposed + 1 else m.transposed
      last := j }

def matching (a b : List Char) : Matching :=
  let reach := max a.length b.length / 2 - 1
  a.zipIdx.foldl (fun m (c, i) => m.step b reach c i) { used := b.map fun _ => false }

def commonLength : List Char → List Char → Nat
  | c :: cs, d :: ds => if c = d then commonLength cs ds + 1 else 0
  | _, _ => 0

/-- Whether two words are more than eight tenths alike. -/
def areSimilar (a b : List Char) : Bool :=
  if a.length ≤ 1 ∧ b.length ≤ 1 then a == b
  else
    let m := matching a b
    let top := m.matched * m.matched * (a.length + b.length) +
      (m.matched - m.transposed) * a.length * b.length
    let bottom := 3 * m.matched * a.length * b.length
    8 * bottom < 10 * top + commonLength a b * (bottom - top)

end Disassembly.CommandLine
