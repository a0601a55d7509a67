import ElementLint.Text.Blank

/-!
# Paths

A path names an entry of a file system by the names on the way to it, with slashes between them.
What stands between two slashes is a piece. A walk along a path goes piece by piece; a program that
looks at a path sees its components, which leave out empty pieces and most full stops.
-/

namespace ElementLint

/-- A component of a path. -/
inductive PathComponent where
  /-- The slash at the start of an absolute path. -/
  | root
  /-- A full stop at the start of a path. -/
  | here
  /-- Two full stops, which lead to the folder above. -/
  | above
  | name (name : String)
  deriving DecidableEq, Repr

/-- Whether a component does not lead out of a folder. -/
def PathComponent.staysInside : PathComponent → Bool
  | .here | .name _ => true
  | .root | .above => false

namespace Path

/-- What stands between the slashes of a path. -/
def pieces (path : String) : List String :=
  (Text.pieces (· == '/') path.toList).map String.ofList

/-- Whether a path starts from the outermost folder. -/
def isAbsolute (path : String) : Bool :=
  path.toList.head? == some '/'

/-- Whether a piece leads nowhere. -/
def isIdle (piece : String) : Bool :=
  piece == "" || piece == "."

/-- The component that a piece stands for. -/
def component? (piece : String) : Option PathComponent :=
  if isIdle piece then none
  else if piece = ".." then some .above
  else some (.name piece)

/-- What a path starts with before its first name. -/
def start (path : String) : List PathComponent :=
  if isAbsolute path then [.root]
  else if (pieces path).head? = some "." then [.here]
  else []

/-- The components of a path. -/
def components (path : String) : List PathComponent :=
  start path ++ (pieces path).filterMap component?

/-- The path of an entry below another one. An absolute path stays as it is. -/
def join (path below : String) : String :=
  if isAbsolute below then below
  else if path.toList.getLast?.all (· == '/') then path ++ below
  else path ++ "/" ++ below

end Path

end ElementLint
