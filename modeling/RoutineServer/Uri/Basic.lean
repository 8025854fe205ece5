import RoutineServer.Text.Blank
import RoutineServer.Uri.Percent

namespace RoutineServer

/-!
# URIs

Documents are named by URIs. A URI is kept in its normal form: the scheme in
lower case, characters that need it percent-encoded, dot segments resolved.
Reading a text brings it into this form; two texts name the same document if
they have the same normal form.

A host is a domain name in ASCII. Addresses in brackets and names in other
scripts are not read, and numbers that stand for an address keep the form in
which they are written: documents are files of the local host or have no host.
-/

/-- Who serves a URI: user and password, host and port as they are written. -/
structure Authority where
  userInfo : Text
  host : Text
  port : Text
  deriving Repr, DecidableEq

/-- A URI in normal form. -/
structure Uri where
  scheme : Text
  authority : Option Authority
  path : Text
  query : Option Text
  fragment : Option Text
  deriving Repr, DecidableEq

namespace Authority

/-- No user, no host and no port. -/
def empty : Authority :=
  ⟨[], [], []⟩

/-- The written form. -/
def render (authority : Authority) : Text :=
  authority.userInfo ++ authority.host ++ authority.port

end Authority

namespace Uri

/--
The written form. Without an authority, a path that starts with two slashes is
marked off by a dot segment, so that it does not read as one.
-/
def render (uri : Uri) : Text :=
  let start :=
    match uri.authority with
    | some authority => "//".toList ++ authority.render
    | none => if "//".toList.isPrefixOf uri.path then "/.".toList else []
  let query := (uri.query.map ('?' :: ·)).getD []
  let fragment := (uri.fragment.map ('#' :: ·)).getD []
  uri.scheme ++ ':' :: (start ++ uri.path ++ query ++ fragment)

/-- The schemes whose URIs always have a host and a path. -/
inductive SchemeClass where
  | file
  | special
  | other
  deriving Repr, DecidableEq

/-- The class of a scheme in lower case. -/
def SchemeClass.of (scheme : Text) : SchemeClass :=
  if scheme == "file".toList then .file
  else if ["http".toList, "https".toList, "ws".toList, "wss".toList, "ftp".toList].contains
      scheme then .special
  else .other

/-- The port that a scheme has when none is written. -/
def defaultPort? (scheme : Text) : Option Nat :=
  if scheme == "http".toList || scheme == "ws".toList then some 80
  else if scheme == "https".toList || scheme == "wss".toList then some 443
  else if scheme == "ftp".toList then some 21
  else none

/-- Whether a character separates path segments. -/
def isSeparator (special : Bool) (char : Char) : Bool :=
  char == '/' || (special && char == '\\')

/-- Whether a character ends a path. -/
def endsPath (char : Char) : Bool :=
  char == '?' || char == '#'

/-- Whether a text is a letter and a colon or a bar. -/
def isDriveLetter : Text → Bool
  | [letter, mark] => letter.isAlpha && (mark == ':' || mark == '|')
  | _ => false

/-- Whether a segment names the directory it stands in. -/
def isSingleDot (segment : Text) : Bool :=
  let plain := segment.map Char.toLower
  plain == ".".toList || plain == "%2e".toList

/-- Whether a segment names the directory above. -/
def isDoubleDot (segment : Text) : Bool :=
  let plain := segment.map Char.toLower
  plain == "..".toList || plain == ".%2e".toList || plain == "%2e.".toList ||
    plain == "%2e%2e".toList

/-- Cut a list at its separators: the first piece and the ones after it. -/
def splitAtSeparators {α : Type} (isCut : α → Bool) : List α → List α × List (List α)
  | [] => ([], [])
  | char :: rest =>
      let pieces := splitAtSeparators isCut rest
      if isCut char then ([], pieces.1 :: pieces.2) else (char :: pieces.1, pieces.2)

/--
The segments of a path with dot segments resolved.

The first argument tells file paths, where drive letters have a meaning of
their own; the second holds the segments so far, the last one first.
-/
def resolveSegments (isFile : Bool) : List Text → List Text → List Text
  | resolved, [] => resolved
  | resolved, segment :: rest =>
      let isLast := rest.isEmpty
      let resolved :=
        if isDoubleDot segment then
          let above :=
            match resolved with
            | [] => []
            | last :: more => if isDriveLetter last then last :: more else more
          if isLast then [] :: above else above
        else if isSingleDot segment then
          if isLast then [] :: resolved else resolved
        else
          match isFile && isDriveLetter segment, segment with
          | true, letter :: _ => [letter, ':'] :: resolved
          | _, _ => segment :: resolved
      resolveSegments isFile resolved rest

/-- Drop the empty segments in front, but keep one segment. -/
def dropEmptySegments : List Text → List Text
  | [] :: next :: rest => dropEmptySegments (next :: rest)
  | segments => segments

/-- A drive letter with more behind it is a segment of its own. -/
def splitDriveLetter : List Text → List Text
  | (letter :: ':' :: next :: more) :: rest =>
      if letter.isAlpha then [letter, ':'] :: (next :: more) :: rest
      else (letter :: ':' :: next :: more) :: rest
  | segments => segments

/-- The segments of the path that follows a leading slash. -/
def pathSegments (scheme : SchemeClass) (path : Text) : List Text :=
  let pieces := splitAtSeparators (isSeparator (scheme != .other)) path
  let segments := (pieces.1 :: pieces.2).map (Percent.encode Percent.pathSet)
  match scheme with
  | .file => dropEmptySegments (resolveSegments true [] (splitDriveLetter segments)).reverse
  | _ => (resolveSegments false [] segments).reverse

/-- A path from its segments. -/
def joinSegments (segments : List Text) : Text :=
  segments.flatMap ('/' :: ·)

/-- Whether a character cannot stand in a host. -/
def isForbiddenInHost (char : Char) : Bool :=
  char.toNat == 0 || char == ' ' || char == '#' || char == '/' || char == ':' || char == '<' ||
    char == '>' || char == '?' || char == '@' || char == '[' || char == '\\' || char == ']' ||
    char == '^' || char == '|'

/--
Read a host. Hosts of special schemes and of files are domain names: escapes
are resolved, and the name is ASCII in lower case. Other hosts are opaque.
-/
def host? (scheme : SchemeClass) (host : Text) : Option Text :=
  if scheme == .other then
    if host.any isForbiddenInHost then none
    else some (Percent.encode Percent.controlSet host)
  else do
    let name ← Text.ofUtf8? (Percent.decode host)
    if name.any fun char => isForbiddenInHost char || Percent.controlSet char || char == '%' then
      none
    else
      some (name.map Char.toLower)

/-- Read what follows the host: nothing, or a colon and a port. -/
def port? (scheme : Text) : Text → Option Text
  | [] => some []
  | ':' :: digits =>
      if digits.all Char.isDigit then
        let number := digits.foldl (fun value digit => 10 * value + (digit.toNat - 0x30)) 0
        if digits.isEmpty || defaultPort? scheme == some number then some []
        else if number < 65536 then some (':' :: (toString number).toList)
        else none
      else
        none
  | _ => none

/-- Split at the last at-sign: user information, if there is one, and the rest. -/
def splitUserInfo (text : Text) : Option Text × Text :=
  let host := (text.reverse.takeWhile (· != '@')).reverse
  if host.length == text.length then (none, text)
  else (some (text.take (text.length - host.length - 1)), host)

/-- User information in normal form, with the at-sign if there is any. -/
def normalUserInfo (text : Text) : Text :=
  let user := text.takeWhile (· != ':')
  let password := (text.dropWhile (· != ':')).drop 1
  let encode := Percent.encode Percent.userInfoSet
  let shown := if password.isEmpty then encode user else encode user ++ ':' :: encode password
  if shown.isEmpty then [] else shown ++ ['@']

/-- Read an authority. -/
def authority? (scheme : Text) (text : Text) : Option Authority := do
  let (userInfo, server) := splitUserInfo text
  let hostText := server.takeWhile (· != ':')
  let port ← port? scheme (server.drop hostText.length)
  let host ← host? (.of scheme) hostText
  if host.isEmpty && (SchemeClass.of scheme != .other || userInfo.isSome || server != hostText) then
    none
  else
    some ⟨(userInfo.map normalUserInfo).getD [], host, port⟩

/-- The query and the fragment of the text behind a path. -/
def queryAndFragment (scheme : SchemeClass) (tail : Text) : Option Text × Option Text :=
  let beforeFragment := tail.takeWhile (· != '#')
  let query :=
    match beforeFragment with
    | '?' :: query => some (Percent.encode (Percent.querySet (scheme != .other)) query)
    | _ => none
  let fragment :=
    match tail.drop beforeFragment.length with
    | '#' :: fragment => some (Percent.encode Percent.fragmentSet fragment)
    | _ => none
  (query, fragment)

/-- A text without one leading separator. -/
def dropSeparator (special : Bool) : Text → Text
  | [] => []
  | char :: rest => if isSeparator special char then rest else char :: rest

/-- Put a URI together from its scheme, authority, path and the text behind the path. -/
def assemble
    (scheme : Text)
    (authority : Option Authority)
    (path tail : Text) :
    Uri :=
  let (query, fragment) := queryAndFragment (.of scheme) tail
  ⟨scheme, authority, path, query, fragment⟩

/-- Read what follows two slashes. -/
def afterSlashes? (scheme rest : Text) : Option Uri := do
  let special := SchemeClass.of scheme != .other
  let authorityText := rest.takeWhile fun char => !isSeparator special char && !endsPath char
  let authority ← authority? scheme authorityText
  let following := rest.drop authorityText.length
  let pathText := following.takeWhile (!endsPath ·)
  let tail := following.drop pathText.length
  let path :=
    if !special && pathText.isEmpty then []
    else joinSegments (pathSegments (.of scheme) (dropSeparator special pathText))
  some (assemble scheme (some authority) path tail)

/-- Read what follows the scheme of a file URI. -/
def afterFile? (rest : Text) : Option Uri := do
  let pathOf (text : Text) : List Text :=
    pathSegments .file (dropSeparator true (text.takeWhile (!endsPath ·)))
  let tailOf (text : Text) : Text := text.dropWhile (!endsPath ·)
  match rest with
  | first :: second :: following =>
      if isSeparator true first && isSeparator true second then
        let hostText := following.takeWhile fun char => !isSeparator true char && !endsPath char
        if isDriveLetter hostText then
          let segments := pathSegments .file (following.takeWhile (!endsPath ·))
          some (assemble "file".toList (some .empty) (joinSegments segments) (tailOf following))
        else
          let host ← host? .file hostText
          let remaining := following.drop hostText.length
          let segments := pathOf remaining
          let host :=
            if host == "localhost".toList || segments.any isDriveLetter then [] else host
          some (assemble "file".toList (some ⟨[], host, []⟩) (joinSegments segments)
            (tailOf remaining))
      else
        some (assemble "file".toList (some .empty) (joinSegments (pathOf rest)) (tailOf rest))
  | _ => some (assemble "file".toList (some .empty) (joinSegments (pathOf rest)) (tailOf rest))

/-- Read what follows a scheme that is neither special nor a file. -/
def afterOther? (scheme rest : Text) : Option Uri :=
  match rest with
  | '/' :: '/' :: following => afterSlashes? scheme following
  | _ =>
      let pathText := rest.takeWhile (!endsPath ·)
      let tail := rest.drop pathText.length
      let path :=
        match pathText with
        | '/' :: path => joinSegments (pathSegments .other path)
        | literal => Percent.encode Percent.controlSet literal
      some (assemble scheme none path tail)

/-- Whether a character can stand in a scheme after its first letter. -/
def isSchemeChar (char : Char) : Bool :=
  char.isAlphanum || char == '+' || char == '-' || char == '.'

/-- Drop blanks and controls at the ends, and line breaks and tabs anywhere. -/
def clean (text : Text) : Text :=
  let isEdge (char : Char) : Bool := char.toNat ≤ 0x20
  let trimmed := ((text.dropWhile isEdge).reverse.dropWhile isEdge).reverse
  trimmed.filter fun char => char != '\t' && char != '\n' && char != '\r'

/-- Read a URI and bring it into normal form. -/
def parse? (text : Text) : Option Uri :=
  let text := clean text
  let written := text.takeWhile isSchemeChar
  match text.drop written.length with
  | ':' :: rest =>
      if written.head?.any Char.isAlpha then
        let scheme := written.map Char.toLower
        match SchemeClass.of scheme with
        | .file => afterFile? rest
        | .special => afterSlashes? scheme (rest.dropWhile (isSeparator true))
        | .other => afterOther? scheme rest
      else
        none
  | _ => none

/-- The URI of a file, given the names on the way to it from the root. -/
def ofFilePath (names : List Text) : Uri :=
  let path := if names.isEmpty then ['/'] else
    joinSegments (names.map (Percent.encode Percent.fileNameSet))
  ⟨"file".toList, some .empty, path, none, none⟩

/-- Whether a name ends like a drive letter: in a letter and a colon or a bar. -/
def endsLikeDrive (name : List UInt8) : Bool :=
  match name.reverse with
  | mark :: letter :: _ =>
      (mark == 0x3A || mark == 0x7C) && (Char.ofNat letter.toNat).isAlpha
  | _ => false

/--
The file that a URI names, as the bytes between the slashes of its path. A slash
separates two names even if it is written as an escape. A URI names a file if it
has a path from the root and no host but the local one. A path that ends like a
drive letter names a directory, so an empty name follows it.
-/
def filePath? (uri : Uri) : Option (List (List UInt8)) :=
  let isLocal :=
    match uri.authority with
    | none => true
    | some authority => authority.host.isEmpty || authority.host == "localhost".toList
  match isLocal, uri.path with
  | true, '/' :: path =>
      let pieces := splitAtSeparators (· == 0x2F) (Percent.decode path)
      let names := pieces.1 :: pieces.2
      some (if names.getLast?.any endsLikeDrive then names ++ [[]] else names)
  | _, _ => none

end Uri

end RoutineServer
