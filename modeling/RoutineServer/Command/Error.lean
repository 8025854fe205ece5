import RoutineServer.Service.Documents

namespace RoutineServer

/-!
# Errors of commands
-/

/-- Why a command fails. -/
inductive CommandError where
  | unknownCommand (name : Text)
  | missingArguments
  | invalidArguments
  | unreadable (uri : Uri) (reason : OpenError)
  | declarationNotFound (name : Text)
  | sameDocument
  deriving Repr, DecidableEq

namespace CommandError

/-- What the user is told about a document that cannot be read. -/
def reasonMessage (uri : Uri) : OpenError → Text
  | .notFound => "No such file or directory (os error 2)".toList
  | .invalidInput => "not a file URI: ".toList ++ uri.render
  | .invalidData => "stream did not contain valid UTF-8".toList
  | .isADirectory => "Is a directory (os error 21)".toList
  | .notADirectory => "Not a directory (os error 20)".toList

/-- What the user is told about a failed command. -/
def message : CommandError → Text
  | .unknownCommand name => "unknown command: ".toList ++ name
  | .missingArguments => "missing command arguments".toList
  | .invalidArguments => "invalid command arguments".toList
  | .unreadable uri reason =>
      "cannot read ".toList ++ uri.render ++ ": ".toList ++ reasonMessage uri reason
  | .declarationNotFound name => "no function or procedure named ".toList ++ name
  | .sameDocument => "the destination must be a different document".toList

end CommandError

end RoutineServer
