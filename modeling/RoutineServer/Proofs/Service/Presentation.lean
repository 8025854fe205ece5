import RoutineServer.Proofs.Lexical.Splitting
import RoutineServer.Proofs.Routine.DescriptionStatement
import RoutineServer.Proofs.Routine.WrittenName
import RoutineServer.Service.Hover
import RoutineServer.Service.Signature

namespace RoutineServer

/-!
# What is shown of a declaration

A card shows the kind and the name of a routine, its parameters, and the
description that its document gives. A signature lists the parameters one by
one, between the commas of the declaration, and marks the one that is typed.
-/

namespace Hover

/-- The word with which a card starts. -/
inductive ShowsKind : RoutineKind → Text → Prop where
  | function :
      ShowsKind .function "Function".toList
  | procedure :
      ShowsKind .procedure "Procedure".toList

/-- Parameters are shown as code without the blanks around them, if anything is left. -/
inductive ShowsParameters (parameters : Text) : Text → Prop where
  | absent :
      parameters.all isBlank = true →
      ShowsParameters parameters []
  | listed :
      Text.trim parameters ≠ [] →
      ShowsParameters parameters
        ("**Parameters:**\n\x60\x60\x60sql\n".toList ++ Text.trim parameters ++
          "\n\x60\x60\x60\n\n".toList)

/-- A card of a declaration in a document. -/
inductive IsCard (text : Text) (declaration : Declaration) : Text → Prop where
  | intro
      {title parameters : Text}
      {description : Option Text} :
      ShowsKind declaration.kind title →
      ShowsParameters declaration.parameters parameters →
      Description.Describes text declaration.spelling description →
      IsCard text declaration
        ("**".toList ++ title ++ "**: \x60".toList ++ declaration.name ++ "\x60\n\n".toList ++
          parameters ++ "**Description:**\n".toList ++
            description.getD "No description".toList)

theorem showsKind_title
    (kind : RoutineKind) :
    ShowsKind kind kind.title := by
  cases kind with
  | function => exact .function
  | procedure => exact .procedure

theorem isCard_cardOf
    {text : Text}
    {declaration : Declaration}
    (declared : declaration ∈ Declaration.parse text) :
    IsCard text declaration (cardOf text declaration) := by
  have named : declaration.spelling ≠ [] := by
    obtain ⟨first, rest, spelled, -⟩ := (Declaration.written_name declared).exists_head
    rw [spelled]
    exact List.cons_ne_nil first rest
  refine .intro (showsKind_title _) ?_ (Description.describes_find? named)
  split
  case isTrue empty =>
    exact .absent (Text.trim_eq_nil_iff.mp (List.isEmpty_iff.mp empty))
  case isFalse nonempty =>
    exact .listed (by simpa using nonempty)

end Hover

namespace Signature

theorem joinComma_eq_intercalate
    (parameters : List Text) :
    joinComma parameters = ", ".toList.intercalate parameters := by
  induction parameters with
  | nil =>
      rfl
  | cons parameter rest inductionHypothesis =>
      cases rest with
      | nil =>
          rw [joinComma, List.intercalate_singleton]
      | cons next others =>
          have pending : next :: others ≠ [] := List.cons_ne_nil next others
          rw [joinComma, inductionHypothesis, List.intercalate_cons_of_ne_nil pending]
          exact pending

/-- What a signature shows of a declaration while an argument is typed. -/
structure Shows (declaration : Declaration) (argument : Nat) (signature : Signature) : Prop where
  parameters :
    ∃ front last,
      CutAtCommas declaration.parameters front last ∧
        signature.parameters =
          front.map Text.trim ++ if last.all isBlank then [] else [Text.trim last]
  label :
    signature.label =
      declaration.name ++ "(".toList ++ ", ".toList.intercalate signature.parameters ++ ")".toList
  active : signature.active = min argument (signature.parameters.length - 1)

theorem shows_of
    (declaration : Declaration)
    (argument : Nat) :
    Shows declaration argument (of declaration argument) := by
  obtain ⟨front, last, pieces, cut⟩ := exists_cutAtCommas declaration.parameters
  refine ⟨⟨front, last, cut, splitParameters_eq pieces⟩, ?_, rfl⟩
  rw [of, joinComma_eq_intercalate]
  simp

end Signature

end RoutineServer
