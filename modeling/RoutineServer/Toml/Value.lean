import RoutineServer.Text.Basic

namespace RoutineServer

/-!
# TOML values

The data that a TOML document holds. A table remembers how it came about,
because that decides what may be added to it later: a table written inline is
complete, a table under a header of its own cannot get a second header, and a
table that only stands on the way to another one can still be given a header.
-/

namespace Toml

/-- How a table came about. -/
inductive Origin where
  /-- It is written between braces. -/
  | inline
  /-- It has a header of its own. -/
  | header
  /-- It stands in a dotted key. -/
  | dotted
  /-- It stands on the way to a header. -/
  | implied
  deriving Repr, DecidableEq

/-- A value; of numbers with a fraction and of dates only the type is kept. -/
inductive Value where
  | string (text : Text)
  | integer (value : Int)
  | float
  | boolean (value : Bool)
  | datetime
  /-- An array, told whether it grew from headers of its elements. -/
  | array (fromHeaders : Bool) (elements : List Value)
  | table (origin : Origin) (entries : List (Text × Value))
  deriving Repr

/-- The entries of a table. -/
abbrev Entries := List (Text × Value)

namespace Entries

/-- Set the value of a key, in its old place if it has one. -/
def set (entries : Entries) (key : Text) (value : Value) : Entries :=
  match entries with
  | [] => [(key, value)]
  | entry :: rest =>
      if entry.1 == key then (key, value) :: rest else entry :: set rest key value

/-- Add a key that is not there yet. -/
def add? (entries : Entries) (key : Text) (value : Value) : Option Entries :=
  if (entries.lookup key).isSome then none else some (entries ++ [(key, value)])

/--
Change the table at the end of a path. Missing tables on the way come about as
`origin` says. Inside an array of tables the last element is meant. A dotted
key must not enter a table with a header or an array.
-/
def changeAt?
    (origin : Origin)
    (change : Entries → Option Entries) :
    List Text → Entries → Option Entries
  | [], entries => change entries
  | key :: path, entries =>
      match entries.lookup key with
      | none => do
          let inner ← changeAt? origin change path []
          some (entries ++ [(key, .table origin inner)])
      | some (.table .inline _) => none
      | some (.table existing inner) =>
          if origin == .dotted && existing == .header then
            none
          else do
            let changed ← changeAt? origin change path inner
            some (entries.set key (.table existing changed))
      | some (.array true elements) =>
          match origin == .dotted, elements.getLast? with
          | false, some (.table existing inner) => do
              let changed ← changeAt? origin change path inner
              some (entries.set key
                (.array true (elements.dropLast ++ [.table existing changed])))
          | _, _ => none
      | some _ => none

/-- Set the value of a dotted key. -/
def setDotted? (entries : Entries) (path : List Text) (value : Value) : Option Entries :=
  match path.getLast? with
  | none => none
  | some key => changeAt? .dotted (·.add? key value) path.dropLast entries

/-- Open the table of a header. -/
def openTable? (entries : Entries) (path : List Text) : Option Entries :=
  match path.getLast? with
  | none => none
  | some key =>
      changeAt? .implied
        (fun parent =>
          match parent.lookup key with
          | none => some (parent ++ [(key, .table .header [])])
          | some (.table .implied inner) => some (parent.set key (.table .header inner))
          | some _ => none)
        path.dropLast entries

/-- Open the next element of the array of tables of a header. -/
def openElement? (entries : Entries) (path : List Text) : Option Entries :=
  match path.getLast? with
  | none => none
  | some key =>
      changeAt? .implied
        (fun parent =>
          match parent.lookup key with
          | none => some (parent ++ [(key, .array true [.table .header []])])
          | some (.array true elements) =>
              some (parent.set key (.array true (elements ++ [.table .header []])))
          | some _ => none)
        path.dropLast entries

end Entries

end Toml

end RoutineServer
