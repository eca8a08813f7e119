import TypeMend.Command.Path
import TypeMend.Failure
import TypeMend.Text.Offset

/-!
# A tree of files

The files under the working directory. A directory exists when some file lies in it. Of what lies
outside only the directories above the working directory and the root are known.
-/
namespace TypeMend

inductive FileContent
  | text (text : String)
  /-- Bytes that are not text. -/
  | binary
  deriving DecidableEq

/-- Files by the names of the directories they lie in, and their own. The names of a file above
the working directory begin with the steps up, and those of a file below the root with a slash. -/
structure FileTree where
  files : Table (List String) FileContent
  deriving DecidableEq

namespace FileTree

inductive Target
  | file (names : List String) (content : FileContent)
  | directory
  /-- Nothing, but a file can be put there. -/
  | vacant (names : List String)
  | fault (fault : FileFault)
  deriving DecidableEq

/-- Whether names lead to a directory: the working directory, one above it, the root, or one in
which some file lies. -/
def isDirectory (tree : FileTree) (names : List String) : Bool :=
  (names.all fun name => name == "..") || names == ["/"] ||
    tree.files.keys.any fun file => names.isPrefixOf file && names.length < file.length

/-- The directory above a directory. The root is above itself. -/
def above (names : List String) : List String :=
  match names.getLast? with
  | none | some ".." => names ++ [".."]
  | some "/" => names
  | some _ => names.dropLast

/-- The longest name of a file, in bytes. -/
def maxName : Nat := 255

/-- The longest path, in bytes. -/
def maxPath : Nat := 4095

/-- The fault of a name that leads to nothing. -/
def absence (name : String) : FileFault :=
  if Text.byteLength name.toList ≤ maxName then .notFound else .nameTooLong

/-- Follows the parts of a path from a directory. `names` are those of the directory. -/
def follow (tree : FileTree) : List String → List String → Target
  | _, [] => .directory
  | names, part :: rest =>
    if part = "." then tree.follow names rest
    else if part = ".." then tree.follow (above names) rest
    else
      let here := names ++ [part]
      if tree.isDirectory here then tree.follow here rest
      else
        match tree.files.get? here, rest with
        | some content, [] => .file here content
        | none, [] => .vacant here
        | some _, _ :: _ => .fault .notDirectory
        | none, _ :: _ => .fault (absence part)

/-- What a path leads to, whether or not a slash ends it. No path holds the null character. -/
def target (tree : FileTree) (path : String) : Target :=
  if path.toList.any fun c => c.toNat == 0 then .fault .nullInName
  else if maxPath < Text.byteLength path.toList then .fault .nameTooLong
  else tree.follow (if Path.isAbsolute path then ["/"] else []) (Path.parts path)

/-- What is in the file that a path leads to. A slash at the end asks for a directory. -/
def content (tree : FileTree) (path : String) : Except FileFault FileContent :=
  match tree.target path with
  | .file _ content => if Path.endsOpen path then .error .notDirectory else .ok content
  | .directory => .error .isDirectory
  | .vacant names => .error (absence (names.getLastD ""))
  | .fault fault => .error fault

def isFile (tree : FileTree) (path : String) : Bool :=
  match tree.content path with
  | .ok _ => true
  | .error _ => false

def read (tree : FileTree) (path : String) : Except FileFault String :=
  match tree.content path with
  | .ok (.text text) => .ok text
  | .ok .binary => .error .notUtf8
  | .error fault => .error fault

/-- Writes a text to a file, which may be new. A slash at the end names a directory, which cannot
be written. -/
def write (tree : FileTree) (path text : String) : Except FileFault FileTree :=
  let put (names : List String) : Except FileFault FileTree :=
    if Path.endsOpen path then .error .isDirectory
    else if maxName < Text.byteLength (names.getLastD "").toList then .error .nameTooLong
    else .ok ⟨tree.files.insert names (.text text)⟩
  match tree.target path with
  | .file names _ => put names
  | .vacant names => put names
  | .directory => .error .isDirectory
  | .fault fault => .error fault

end FileTree

end TypeMend
