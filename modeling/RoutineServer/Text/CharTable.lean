namespace RoutineServer

/-!
# Tables of code points

Character properties are stored as ascending lists of ranges, and case
mappings as runs of code points that move by one common distance.
-/

/-- Whether a code point lies in one of the ranges, both ends included. -/
def inRanges (ranges : List (Nat × Nat)) (codePoint : Nat) : Bool :=
  ranges.any fun range => range.1 ≤ codePoint && codePoint ≤ range.2

/--
Every `step`-th code point from `first` to `last`, each mapped to the code
point `shift` places further on.
-/
structure CaseRun where
  first : Nat
  last : Nat
  step : Nat
  shift : Int
  deriving Repr, DecidableEq

namespace CaseRun

/-- The image of a code point of the run. -/
def image? (run : CaseRun) (codePoint : Nat) : Option Nat :=
  if run.first ≤ codePoint && codePoint ≤ run.last &&
      (codePoint - run.first) % run.step == 0 then
    some (codePoint + run.shift).toNat
  else
    none

end CaseRun

/-- Map a character by the first run that holds it; others stay as they are. -/
def mapByRuns (runs : List CaseRun) (char : Char) : Char :=
  match runs.findSome? (CaseRun.image? · char.toNat) with
  | some codePoint => Char.ofNat codePoint
  | none => char

end RoutineServer
