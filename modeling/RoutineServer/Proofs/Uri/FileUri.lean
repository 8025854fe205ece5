import RoutineServer.Proofs.Text.Spelling
import RoutineServer.Uri.Basic

namespace RoutineServer

/-!
# The URIs of files

The written form of a file's URI belongs to no other URI that can be read from
a text: such a URI has the scheme, no host, and the same path.
-/

namespace Percent

theorem isAlphanum_hexDigit :
    ∀ digit < 16, (hexDigit digit).isAlphanum = true := by
  decide

/-- An encoded text does not hold the signs that are to be encoded. -/
theorem not_mem_encode
    {set : Char → Bool}
    {sign : Char}
    (encoded : set sign = true)
    (mark : sign ≠ '%')
    (other : sign.isAlphanum = false)
    (text : Text) :
    sign ∉ encode set text := by
  intro member
  obtain ⟨char, -, inside⟩ := List.mem_flatMap.mp member
  split at inside
  case isTrue =>
    obtain ⟨byte, -, inByte⟩ := List.mem_flatMap.mp inside
    have notDigit : ∀ digit < 16, sign ≠ hexDigit digit := by
      rintro digit small rfl
      rw [isAlphanum_hexDigit digit small] at other
      cases other
    have bound : byte.toNat < 256 := byte.toNat_lt
    have high := notDigit (byte.toNat / 16) (by omega)
    have low := notDigit (byte.toNat % 16) (by omega)
    simp [encodeByte, mark, high, low] at inByte
  case isFalse plain =>
    rw [List.mem_singleton] at inside
    subst inside
    exact plain encoded

end Percent

/-- Only a letter is changed by taking its small form. -/
theorem eq_of_toLower_eq
    {char sign : Char}
    (same : char.toLower = sign)
    (notLetter : sign.isAlpha = false) :
    char = sign := by
  by_cases capital : char.isUpper = true
  · have ascii : char.toNat < 0x80 := by
      have bounds := isUpper_iff_toNat.mp capital
      omega
    obtain ⟨-, -, letter, kept⟩ := toLower_ascii ascii
    rw [same, notLetter] at letter
    rw [← kept letter.symm, same]
  · rwa [toLower_of_not_isUpper capital] at same

namespace Uri

section OfFilePath

variable (names : List Text)

theorem render_ofFilePath :
    (ofFilePath names).render =
      "file".toList ++ ':' :: ("//".toList ++ (ofFilePath names).path) := by
  simp [render, ofFilePath, Authority.render, Authority.empty]

theorem exists_path_ofFilePath :
    ∃ rest, (ofFilePath names).path = '/' :: rest := by
  cases names with
  | nil => exact ⟨[], rfl⟩
  | cons name rest => exact ⟨_, rfl⟩

theorem not_mem_path_ofFilePath
    {sign : Char}
    (encoded : Percent.fileNameSet sign = true)
    (mark : sign ≠ '%')
    (slash : sign ≠ '/')
    (other : sign.isAlphanum = false) :
    sign ∉ (ofFilePath names).path := by
  intro member
  rw [ofFilePath] at member
  split at member
  case isTrue =>
    exact slash (List.mem_singleton.mp member)
  case isFalse =>
    obtain ⟨segment, isSegment, inside⟩ := List.mem_flatMap.mp member
    obtain ⟨name, -, rfl⟩ := List.mem_map.mp isSegment
    rcases List.mem_cons.mp inside with isSlash | inName
    · exact slash isSlash
    · exact Percent.not_mem_encode encoded mark other name inName

/-- The written forms of two files differ if their URIs do. -/
theorem ofFilePath_eq_of_render
    {names otherNames : List Text}
    (same : (ofFilePath names).render = (ofFilePath otherNames).render) :
    ofFilePath names = ofFilePath otherNames := by
  rw [render_ofFilePath, render_ofFilePath] at same
  have paths := List.append_cancel_left (List.tail_eq_of_cons_eq (List.append_cancel_left same))
  exact congrArg (fun path : Text => Uri.mk "file".toList (some .empty) path none none) paths

end OfFilePath

section Reading

variable {uri : Uri}

theorem afterSlashes?_scheme
    {scheme rest : Text}
    (read : afterSlashes? scheme rest = some uri) :
    uri.scheme = scheme := by
  simp only [afterSlashes?, Option.bind_eq_bind, Option.bind_eq_some_iff] at read
  obtain ⟨authority, -, found⟩ := read
  cases found
  rfl

theorem afterOther?_scheme
    {scheme rest : Text}
    (read : afterOther? scheme rest = some uri) :
    uri.scheme = scheme := by
  unfold afterOther? at read
  split at read
  case h_1 =>
    exact afterSlashes?_scheme read
  case h_2 =>
    cases read
    rfl

/-- No slash stands in the host of a file. -/
theorem not_mem_of_host?
    {hostText host : Text}
    (read : host? .file hostText = some host) :
    '/' ∉ host := by
  unfold host? at read
  rw [if_neg (by decide), Option.bind_eq_bind, Option.bind_eq_some_iff] at read
  obtain ⟨name, -, found⟩ := read
  rw [Option.ite_none_left_eq_some] at found
  obtain ⟨allowed, found⟩ := found
  cases found
  intro member
  obtain ⟨char, isChar, same⟩ := List.mem_map.mp member
  rw [eq_of_toLower_eq same (by decide)] at isChar
  refine allowed (List.any_eq_true.mpr ⟨'/', isChar, by decide⟩)

/-- A file has at most a host to serve it, no user and no port. -/
theorem authority_of_afterFile?
    {rest : Text}
    (read : afterFile? rest = some uri) :
    uri.scheme = "file".toList ∧
      ∃ host, uri.authority = some ⟨[], host, []⟩ ∧ '/' ∉ host := by
  unfold afterFile? at read
  dsimp only at read
  split at read
  case h_2 =>
    cases read
    exact ⟨rfl, [], rfl, List.not_mem_nil⟩
  case h_1 =>
    split at read
    case isFalse =>
      cases read
      exact ⟨rfl, [], rfl, List.not_mem_nil⟩
    case isTrue =>
      split at read
      case isTrue =>
        cases read
        exact ⟨rfl, [], rfl, List.not_mem_nil⟩
      case isFalse =>
        obtain ⟨host, isHost, found⟩ := Option.bind_eq_some_iff.mp read
        cases found
        refine ⟨rfl, _, rfl, ?_⟩
        split
        case isTrue => exact List.not_mem_nil
        case isFalse => exact not_mem_of_host? isHost

/-- A scheme holds no colon, and the one of files leaves no user and no port. -/
theorem scheme_of_parse?
    {text : Text}
    (read : parse? text = some uri) :
    ':' ∉ uri.scheme ∧
      (uri.scheme = "file".toList → ∃ host, uri.authority = some ⟨[], host, []⟩ ∧ '/' ∉ host) := by
  unfold parse? at read
  dsimp only at read
  split at read
  case h_2 => cases read
  case h_1 =>
    rw [Option.ite_none_right_eq_some] at read
    obtain ⟨-, read⟩ := read
    generalize written : (clean text).takeWhile isSchemeChar = front at read
    have plain : ':' ∉ front.map Char.toLower := by
      intro member
      obtain ⟨char, isChar, same⟩ := List.mem_map.mp member
      rw [eq_of_toLower_eq same (by decide), ← written] at isChar
      have allowed := List.mem_takeWhile_imp isChar
      exact absurd allowed (by decide)
    split at read
    case h_1 =>
      obtain ⟨isFile, host⟩ := authority_of_afterFile? read
      rw [isFile]
      exact ⟨by decide, fun _ => host⟩
    case h_2 special =>
      rw [afterSlashes?_scheme read]
      refine ⟨plain, ?_⟩
      intro isFile
      rw [isFile] at special
      cases special
    case h_3 other =>
      rw [afterOther?_scheme read]
      refine ⟨plain, ?_⟩
      intro isFile
      rw [isFile] at other
      cases other

end Reading

/-- A URI that is written like that of a file is that of the file. -/
theorem eq_ofFilePath_of_render
    {uri : Uri}
    {text : Text}
    {names : List Text}
    (read : parse? text = some uri)
    (same : uri.render = (ofFilePath names).render) :
    uri = ofFilePath names := by
  obtain ⟨scheme, authority, path, query, fragment⟩ := uri
  obtain ⟨plain, ofFile⟩ := scheme_of_parse? read
  rw [render_ofFilePath, render] at same
  have isFile : scheme = "file".toList := by
    have marked : ∀ char ∈ scheme, (char != ':') = true := by
      intro char member
      exact bne_iff_ne.mpr fun isMark => plain (isMark ▸ member)
    have front := congrArg (List.takeWhile (· != ':')) same
    rw [List.takeWhile_append_of_pos marked] at front
    simpa using front
  subst isFile
  have rest := List.tail_eq_of_cons_eq (List.append_cancel_left same)
  obtain ⟨host, rfl, noSlash⟩ := ofFile rfl
  obtain ⟨below, isPath⟩ := exists_path_ofFilePath names
  have noQuery : '?' ∉ (ofFilePath names).path :=
    not_mem_path_ofFilePath names (by decide) (by decide) (by decide) (by decide)
  have noFragment : '#' ∉ (ofFilePath names).path :=
    not_mem_path_ofFilePath names (by decide) (by decide) (by decide) (by decide)
  have whole :
      host ++ path ++ (query.map ('?' :: ·)).getD [] ++ (fragment.map ('#' :: ·)).getD [] =
        (ofFilePath names).path := by
    simpa [Authority.render] using rest
  have noHost : host = [] := by
    cases host with
    | nil =>
        rfl
    | cons first more =>
        rw [isPath] at whole
        have isSlash : first = '/' := List.head_eq_of_cons_eq whole
        exact (noSlash (isSlash ▸ List.mem_cons_self)).elim
  have noQueryHere : query = none := by
    cases query with
    | none => rfl
    | some shown => exact (noQuery (by simp [← whole])).elim
  have noFragmentHere : fragment = none := by
    cases fragment with
    | none => rfl
    | some shown => exact (noFragment (by simp [← whole])).elim
  subst noHost noQueryHere noFragmentHere
  simp only [List.nil_append, Option.map_none, Option.getD_none, List.append_nil] at whole
  subst whole
  rfl

end Uri

end RoutineServer
