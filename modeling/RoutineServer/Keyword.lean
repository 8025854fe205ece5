import RoutineServer.Text.Fold

namespace RoutineServer

/-!
# Keywords

The words that completion offers and that a rename must not touch: the
reserved words of PostgreSQL, then common words of statements and of the
procedural language.
-/

namespace Keyword

/-- The keywords in the order in which completion lists them. -/
def spellings : List String := [
  "all", "analyse", "analyze", "and", "any", "array", "as", "asc", "asymmetric", "both",
  "case", "cast", "check", "collate", "column", "constraint", "create", "current_catalog",
  "current_date", "current_role", "current_time", "current_timestamp", "current_user",
  "default", "deferrable", "desc", "distinct", "do", "else", "end", "except", "false",
  "fetch", "for", "foreign", "from", "grant", "group", "having", "in", "initially",
  "intersect", "into", "lateral", "leading", "limit", "localtime", "localtimestamp", "not",
  "null", "offset", "on", "only", "or", "order", "placing", "primary", "references",
  "returning", "select", "session_user", "some", "symmetric", "system_user", "table",
  "then", "to", "trailing", "true", "union", "unique", "user", "using", "variadic", "when",
  "where", "window", "with", "abort", "add", "after", "alter", "before", "begin", "call",
  "cascade", "close", "copy", "cursor", "database", "declare", "delete", "detach",
  "domain", "drop", "execute", "explain", "filter", "function", "if", "index", "insert",
  "language", "listen", "lock", "notify", "over", "partition", "prepare", "procedure",
  "raise", "return", "returns", "revoke", "schema", "security", "sequence", "set", "sql",
  "trigger", "type", "update", "values", "view", "volatile", "while", "work", "xml",
  "year", "loop", "exit", "continue", "perform", "exception", "plpgsql", "found", "row",
  "record", "immutable", "stable", "definer", "invoker"
]

/-- The keywords as texts. -/
def all : List Text :=
  spellings.map String.toList

/-- Whether a word is a keyword, in any letter case. -/
def contains (word : Text) : Bool :=
  all.any (Text.equalAsciiCase · word)

end Keyword

end RoutineServer
