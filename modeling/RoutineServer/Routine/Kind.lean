import RoutineServer.Text.Fold

namespace RoutineServer

/-!
# Kinds of routines

A routine is a function or a procedure.
-/

/-- The two kinds of stored routines. -/
inductive RoutineKind where
  | function
  | procedure
  deriving Repr, DecidableEq

namespace RoutineKind

/-- The kind as it is named in outlines and arguments. -/
def name : RoutineKind → Text
  | .function => "function".toList
  | .procedure => "procedure".toList

/-- The kind as a heading. -/
def title : RoutineKind → Text
  | .function => "Function".toList
  | .procedure => "Procedure".toList

/-- The kind as the keyword of a declaration. -/
def keyword : RoutineKind → Text
  | .function => "FUNCTION".toList
  | .procedure => "PROCEDURE".toList

/-- The kind that a keyword stands for, in any letter case. -/
def ofKeyword? (word : Text) : Option RoutineKind :=
  if Text.equalAsciiCase word "function".toList then some .function
  else if Text.equalAsciiCase word "procedure".toList then some .procedure
  else none

end RoutineKind

end RoutineServer
