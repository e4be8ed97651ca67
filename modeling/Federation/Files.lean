import Federation.Text.Utf8

/-!
# Files

The files that credentials may read, as a tree below one working directory.  Nothing above that
directory is known: a path that leaves it finds nothing.
-/

namespace Federation

inductive Node where
  | file (contents : Bytes)
  | directory (entries : List (String × Node))
  deriving Repr

inductive FileFault where
  | notFound
  | notDirectory
  | isDirectory
  | nameTooLong
  | nulInName
  | notText
  deriving DecidableEq, Repr

def FileFault.message : FileFault → String
  | .notFound => "No such file or directory (os error 2)"
  | .notDirectory => "Not a directory (os error 20)"
  | .isDirectory => "Is a directory (os error 21)"
  | .nameTooLong => "File name too long (os error 36)"
  | .nulInName => "file name contained an unexpected NUL byte"
  | .notText => "stream did not contain valid UTF-8"

namespace Files

/-- the entries of the working directory -/
abbrev Tree := List (String × Node)

def pieces (cs : List Char) : List String :=
  go [] cs
where
  go (piece : List Char) : List Char → List String
    | [] => [String.ofList piece.reverse]
    | c :: cs => if c = '/' then String.ofList piece.reverse :: go [] cs else go (c :: piece) cs

/-- the longest name and the longest path, in bytes -/
def maxName : Nat := 255
def maxPath : Nat := 4095

/-- where a walk stands: at a node, with the directories above it, or above the working directory -/
inductive Place where
  | inside (node : Node) (above : List Tree)
  | outside

def step (name : String) : Place → Except FileFault Place
  | .outside => if name = "." ∨ name = ".." then .ok .outside else .error .notFound
  | .inside (.file _) _ => .error .notDirectory
  | .inside (.directory entries) above =>
    if name = "." then .ok (.inside (.directory entries) above)
    else if name = ".." then match above with
      | [] => .ok .outside
      | parent :: rest => .ok (.inside (.directory parent) rest)
    else if maxName < name.utf8ByteSize then .error .nameTooLong
    else match entries.lookup name with
      | some node => .ok (.inside node (entries :: above))
      | none => .error .notFound

def find (tree : Tree) (path : String) : Except FileFault Place := do
  if path.toList.contains '\x00' then throw .nulInName
  if path.isEmpty then throw .notFound
  if maxPath < path.utf8ByteSize then throw .nameTooLong
  let names := pieces path.toList
  let start : Place := if names.head? = some "" then .outside else .inside (.directory tree) []
  let found ← (names.filter (· ≠ "")).foldlM (fun place name => step name place) start
  match found with
  | .inside (.file _) _ => if names.getLast? = some "" then throw .notDirectory else pure found
  | _ => pure found

def read (tree : Tree) (path : String) : Except FileFault Bytes := do
  match ← find tree path with
  | .inside (.file contents) _ => pure contents
  | _ => throw .isDirectory

def readText (tree : Tree) (path : String) : Except FileFault String := do
  match Utf8.decode? (← read tree path) with
  | some text => pure text
  | none => throw .notText

/-! ## changes -/

def put (tree : Tree) (name : String) (node : Node) : Tree :=
  (name, node) :: tree.filter (·.1 ≠ name)

/-- `tree` with a node at a path; directories on the way are made.  Nothing changes where a file is
in the way of a directory, or a directory in the way of a file; a directory that is there stays. -/
def write (node : Node) : List String → Tree → Tree
  | [], tree => tree
  | [name], tree => match node, tree.lookup name with
    | .directory _, some _ => tree
    | .file _, some (.directory _) => tree
    | node, _ => put tree name node
  | name :: rest, tree => match tree.lookup name with
    | none => put tree name (.directory (write node rest []))
    | some (.directory entries) => put tree name (.directory (write node rest entries))
    | some (.file _) => tree

/-- `tree` without the file at a path; a directory stays -/
def remove : List String → Tree → Tree
  | [], tree => tree
  | [name], tree => match tree.lookup name with
    | some (.file _) => tree.filter (·.1 ≠ name)
    | _ => tree
  | name :: rest, tree => match tree.lookup name with
    | some (.directory entries) => put tree name (.directory (remove rest entries))
    | _ => tree

def names (path : String) : List String :=
  (pieces path.toList).filter fun name => name ≠ "" ∧ name ≠ "."

def join (base more : String) : String :=
  if base.isEmpty then more
  else if base.toList.getLast? = some '/' then base ++ more
  else base ++ "/" ++ more

end Files

end Federation
