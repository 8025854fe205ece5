import RoutineServer.Toml.Document

namespace RoutineServer

/-!
# Settings

What a user can set in a configuration file: which files belong to the
workspace, how the index is kept, and what completion offers. Every setting has
a default. A section is a table, or an array of its settings in order.
-/

/-- Which files belong to a workspace. -/
structure WorkspaceSettings where
  included : List Text
  excluded : List Text
  deriving Repr, DecidableEq

/-- How the index is kept. -/
structure CacheSettings where
  enabled : Bool
  /-- How long a change waits for further ones before the index is refreshed. -/
  debounceMs : Nat
  deriving Repr, DecidableEq

/-- All settings. -/
structure Settings where
  workspace : WorkspaceSettings
  cache : CacheSettings
  /-- Whether completion offers keywords. -/
  keywords : Bool
  deriving Repr, DecidableEq

namespace Settings

/-- All SQL files except those of installed packages. -/
def defaultWorkspace : WorkspaceSettings :=
  ⟨["**/*.sql".toList, "**/*.SQL".toList], ["**/node_modules/**".toList]⟩

/-- The index is kept, half a second after the last change. -/
def defaultCache : CacheSettings :=
  ⟨true, 500⟩

/-- The settings without a configuration file. -/
def default : Settings :=
  ⟨defaultWorkspace, defaultCache, true⟩

/-- The settings of a section in order, each missing or there; extra elements do not matter. -/
def fields? (names : List Text) : Toml.Value → Option (List (Option Toml.Value))
  | .table _ entries => some (names.map fun name => entries.lookup name)
  | .array _ elements =>
      some ((List.range names.length).map fun position => elements[position]?)
  | _ => none

/-- A value, or the default if it is missing. -/
def orDefault? (fallback : α) (read? : Toml.Value → Option α) : Option Toml.Value → Option α
  | none => some fallback
  | some value => read? value

/-- A truth value. -/
def bool? : Toml.Value → Option Bool
  | .boolean value => some value
  | _ => none

/-- A number of milliseconds, 64 bits wide. -/
def milliseconds? : Toml.Value → Option Nat
  | .integer value => if 0 ≤ value && value < 18446744073709551616 then some value.toNat else none
  | _ => none

/-- A list of texts. -/
def texts? : Toml.Value → Option (List Text)
  | .array _ elements =>
      elements.mapM fun
        | .string text => some text
        | _ => none
  | _ => none

/-- The section on the workspace. -/
def workspace? (value : Toml.Value) : Option WorkspaceSettings := do
  match ← fields? ["include".toList, "exclude".toList] value with
  | [included, excluded] =>
      some ⟨← orDefault? defaultWorkspace.included texts? included,
        ← orDefault? defaultWorkspace.excluded texts? excluded⟩
  | _ => none

/-- The section on the index. -/
def cache? (value : Toml.Value) : Option CacheSettings := do
  match ← fields? ["enabled".toList, "debounce-ms".toList] value with
  | [enabled, debounce] =>
      some ⟨← orDefault? defaultCache.enabled bool? enabled,
        ← orDefault? defaultCache.debounceMs milliseconds? debounce⟩
  | _ => none

/-- The section on completion. -/
def completion? (value : Toml.Value) : Option Bool := do
  match ← fields? ["keywords".toList] value with
  | [keywords] => orDefault? true bool? keywords
  | _ => none

/-- Read a configuration file; unknown keys do not matter. -/
def parse? (text : Text) : Option Settings := do
  let entries ← Toml.parse? text
  some {
    workspace := ← orDefault? defaultWorkspace workspace? (entries.lookup "workspace".toList)
    cache := ← orDefault? defaultCache cache? (entries.lookup "cache".toList)
    keywords := ← orDefault? true completion? (entries.lookup "completion".toList)
  }

end Settings

end RoutineServer
