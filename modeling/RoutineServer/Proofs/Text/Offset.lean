import RoutineServer.Text.Basic

namespace RoutineServer

/-!
# Places in a text by byte offset

A byte offset between two characters splits a text in one way only. At such
offsets `before`, `after`, `slice` and `charAt?` give the pieces of the split.
-/

namespace Text

theorem byteLength_pos
    {text : Text}
    (nonempty : text ≠ []) :
    0 < byteLength text := by
  cases text with
  | nil =>
      exact absurd rfl nonempty
  | cons char rest =>
      exact Nat.lt_of_lt_of_le (Char.utf8Size_pos char) (Nat.le_add_right _ _)

/-- The end of a piece has the characters of the piece in front. -/
theorem index_eq
    {text front back : Text}
    {offset : Nat}
    (whole : text = front ++ back)
    (place : offset = byteLength front) :
    index offset text = front.length := by
  rw [whole, place, index_byteLength_append]

theorem before_eq
    {text front back : Text}
    {offset : Nat}
    (whole : text = front ++ back)
    (place : offset = byteLength front) :
    before offset text = front := by
  rw [before, index_eq whole place, whole]
  exact List.take_left

theorem after_eq
    {text front back : Text}
    {offset : Nat}
    (whole : text = front ++ back)
    (place : offset = byteLength front) :
    after offset text = back := by
  rw [after, index_eq whole place, whole]
  exact List.drop_left

/-- Behind a piece, characters are counted from its end. -/
theorem index_byteLength_add
    (front back : Text)
    (offset : Nat) :
    index (byteLength front + offset) (front ++ back) = front.length + index offset back := by
  induction front with
  | nil =>
      simp
  | cons char rest inductionHypothesis =>
      have positive := Char.utf8Size_pos char
      cases total : byteLength (char :: rest) + offset with
      | zero =>
          rw [byteLength_cons] at total
          omega
      | succ more =>
          have left : more + 1 - char.utf8Size = byteLength rest + offset := by
            rw [byteLength_cons] at total
            omega
          rw [List.cons_append, index, left, inductionHypothesis, List.length_cons]
          omega

theorem index_mono
    {first second : Nat}
    (ordered : first ≤ second)
    (text : Text) :
    index first text ≤ index second text := by
  induction text generalizing first second with
  | nil =>
      cases first with
      | zero => simp [index]
      | succ => simp [index]
  | cons char rest inductionHypothesis =>
      cases first with
      | zero =>
          simp [index]
      | succ less =>
          cases second with
          | zero =>
              omega
          | succ more =>
              have later :=
                inductionHypothesis (Nat.sub_le_sub_right ordered char.utf8Size)
              simpa [index] using later

/-- Boundaries are the ends of pieces. -/
theorem isBoundary_iff
    {offset : Nat}
    {text : Text} :
    isBoundary offset text = true ↔
      ∃ front back, text = front ++ back ∧ byteLength front = offset := by
  constructor
  · intro boundary
    refine ⟨before offset text, after offset text, (before_append_after offset text).symm, ?_⟩
    simpa [isBoundary] using boundary
  · rintro ⟨front, back, rfl, rfl⟩
    rw [isBoundary, before_eq rfl rfl]
    exact beq_self_eq_true _

/-- The end of a text is a boundary. -/
theorem isBoundary_byteLength
    (text : Text) :
    isBoundary (byteLength text) text = true :=
  isBoundary_iff.mpr ⟨text, [], (List.append_nil text).symm, rfl⟩

/-- The piece between the ends of two pieces. -/
theorem slice_eq
    {text front middle back : Text}
    {start stop : Nat}
    (whole : text = front ++ (middle ++ back))
    (starts : start = byteLength front)
    (stops : stop = start + byteLength middle) :
    slice ⟨start, stop⟩ text = middle := by
  rw [starts] at stops
  rw [← byteLength_append] at stops
  have upTo : before stop text = front ++ middle :=
    before_eq (by rw [whole, List.append_assoc]) stops
  rw [slice, upTo, index_eq whole starts]
  exact List.drop_left

theorem charAt?_eq
    {text front back : Text}
    {char : Char}
    {offset : Nat}
    (whole : text = front ++ char :: back)
    (place : offset = byteLength front) :
    charAt? offset text = some char := by
  have boundary : isBoundary offset text = true :=
    isBoundary_iff.mpr ⟨front, char :: back, whole, place.symm⟩
  rw [charAt?, boundary, after_eq whole place]
  rfl

theorem exists_of_charAt?
    {text : Text}
    {char : Char}
    {offset : Nat}
    (found : charAt? offset text = some char) :
    ∃ front back, text = front ++ char :: back ∧ offset = byteLength front := by
  rw [charAt?, Option.ite_none_right_eq_some] at found
  obtain ⟨boundary, first⟩ := found
  obtain ⟨back, shape⟩ := List.head?_eq_some_iff.mp first
  refine ⟨before offset text, back, ?_, (beq_iff_eq.mp boundary).symm⟩
  rw [← shape, before_append_after]

end Text

end RoutineServer
