import RoutineServer.Text.Basic

namespace RoutineServer

/-!
# The order of texts

Texts are sorted by their first difference in code points, which is also the
order of their UTF-8 bytes. A text comes before its extensions.
-/

namespace Text

/-- Whether the first text comes before the second one or equals it. -/
def atMost : Text → Text → Bool
  | [], _ => true
  | _ :: _, [] => false
  | left :: moreLeft, right :: moreRight =>
      left.toNat < right.toNat || (left == right && atMost moreLeft moreRight)

/-- Whether a list of texts comes before another one or equals it, part by part. -/
def listAtMost : List Text → List Text → Bool
  | [], _ => true
  | _ :: _, [] => false
  | left :: moreLeft, right :: moreRight =>
      if left == right then listAtMost moreLeft moreRight else atMost left right

end Text

end RoutineServer
