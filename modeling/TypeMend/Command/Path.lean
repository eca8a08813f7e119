/-!
# Paths

Paths are texts with slashes between their parts. Repeated slashes, slashes at the end and parts
that are a single point, except in front, mean nothing.
-/
namespace TypeMend.Path

/-- Whether a path begins at the root. -/
def isAbsolute (path : String) : Bool :=
  path.toList.head? == some '/'

/-- Whether a path ends with a slash. -/
def endsOpen (path : String) : Bool :=
  path.toList.getLast? == some '/'

/-- A path below a directory. An absolute path stays as it is. -/
def join (directory path : String) : String :=
  if isAbsolute path || directory.isEmpty then path
  else if endsOpen directory then directory ++ path
  else directory ++ "/" ++ path

/-- A reversed path without slashes and meaningless points at its end. The root and a point in
front stay. -/
def dropTail : List Char → List Char
  | ['/'] => ['/']
  | '/' :: cs => dropTail cs
  | '.' :: '/' :: cs => dropTail ('/' :: cs)
  | cs => cs

/-- The directory of a path: the path without its last part. The root and the empty path have
none. -/
def parent? (path : String) : Option String :=
  match dropTail path.toList.reverse with
  | [] => none
  | ['/'] => none
  | cs => some (String.ofList (dropTail (cs.dropWhile (· ≠ '/'))).reverse)

/-- The pieces of a text between slashes. -/
def pieces : List Char → List (List Char)
  | [] => [[]]
  | c :: cs =>
    if c = '/' then [] :: pieces cs
    else
      match pieces cs with
      | [] => [[c]]
      | piece :: rest => (c :: piece) :: rest

/-- The parts of a path between slashes. Empty parts are left out. -/
def parts (path : String) : List String :=
  ((pieces path.toList).filter fun piece => !piece.isEmpty).map String.ofList

end TypeMend.Path
