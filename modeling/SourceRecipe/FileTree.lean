import SourceRecipe.Dict
import SourceRecipe.Path
import SourceRecipe.Backend.Fault

/-!
# File trees

The part of a file system that a build can see: directories and files by their names from the
root, and the directory that relative paths start from.  Paths are followed step by step, so a
step up leads to the directory above the one reached so far, and a point or a slash after a name
asks for a directory.
-/

namespace SourceRecipe

inductive FileNode where
  | directory
  | file (content : ByteArray)

/-- The names from the root to a place. -/
abbrev Place := List String

/-- Directories and files, and the directory that relative paths start from.  The root and the
starting directory always exist. -/
structure FileTree where
  start : Place
  nodes : Dict Place FileNode

namespace FileTree

def empty : FileTree := ⟨["work"], ⟨[(["work"], .directory)]⟩⟩

def node? (tree : FileTree) (place : Place) : Option FileNode :=
  if place = [] then some .directory else tree.nodes.get? place

/-- What stands at a name in a directory, if anything.  Names have at most 255 bytes. -/
def entry? (tree : FileTree) (around : Place) (name : String) :
    Except FileError (Option FileNode) :=
  if 255 < name.utf8ByteSize then .error .longName else .ok (tree.node? (around ++ [name]))

/-- The place that some steps lead to from `here`.  All of them must lead to directories. -/
def walk (tree : FileTree) (here : Place) : List PathPart → Except FileError Place
  | [] => .ok here
  | .root :: others => walk tree [] others
  | .here :: others => walk tree here others
  | .up :: others => walk tree here.dropLast others
  | .name text :: others =>
      match tree.entry? here text with
      | .error error => .error error
      | .ok none => .error .notFound
      | .ok (some (.file _)) => .error .notADirectory
      | .ok (some .directory) => walk tree (here ++ [text]) others

inductive Spot where
  /-- To a directory. -/
  | directory (place : Place)
  /-- To a name in a directory, at which nothing needs to stand. -/
  | entry (around : Place) (name : String)
  deriving DecidableEq

def Spot.place : Spot → Place
  | directory place => place
  | entry around name => around ++ [name]

/-- The spot that a path leads to.  A path has less than 4096 bytes, and no character zero. -/
def spot (tree : FileTree) (path : Path) : Except FileError Spot :=
  if path.chars.contains '\x00' then .error .invalidPath
  else if path.text.isEmpty then .error .notFound
  else if 4096 ≤ path.text.utf8ByteSize then .error .longName
  else
    match path.steps.getLast? with
    | some (.name text) =>
        (tree.walk tree.start path.steps.dropLast).map fun around => .entry around text
    | _ => (tree.walk tree.start path.steps).map .directory

/-! ## Looking -/

def lookup (tree : FileTree) (path : Path) : Except FileError FileNode := do
  match ← tree.spot path with
  | .directory _ => .ok .directory
  | .entry around name =>
      match ← tree.entry? around name with
      | none => .error .notFound
      | some (.file content) =>
          if path.endsInSlash then .error .notADirectory else .ok (.file content)
      | some .directory => .ok .directory

def has (tree : FileTree) (path : Path) : Bool :=
  match tree.lookup path with
  | .ok _ => true
  | .error _ => false

def hasDirectory (tree : FileTree) (path : Path) : Bool :=
  match tree.lookup path with
  | .ok .directory => true
  | _ => false

/-- The plainest path that means the same place as a path: its names from the starting directory,
or from the root for a place outside. -/
def plain (tree : FileTree) (path : Path) : Path :=
  match tree.spot path with
  | .error _ => path
  | .ok spot =>
      if tree.start.isPrefixOf spot.place then .ofNames (spot.place.drop tree.start.length)
      else ⟨"/" ++ (Path.ofNames spot.place).text⟩

def readBytes (tree : FileTree) (path : Path) : Except FileError ByteArray := do
  match ← tree.lookup path with
  | .directory => .error .isADirectory
  | .file content => .ok content

def readText (tree : FileTree) (path : Path) : Except FileError String := do
  let content ← tree.readBytes path
  match String.fromUTF8? content with
  | some text => .ok text
  | none => .error .invalidData

def isOccupied (tree : FileTree) (place : Place) : Bool :=
  tree.nodes.keys.any fun key => place.isPrefixOf key && key != place

def listsAny (tree : FileTree) (path : Path) : Except FileError Bool := do
  match ← tree.lookup path with
  | .file _ => .error .notADirectory
  | .directory => return tree.isOccupied (← tree.spot path).place

/-! ## Single changes -/

def set (tree : FileTree) (place : Place) (node : FileNode) : FileTree :=
  { tree with nodes := tree.nodes.put place node }

def writeBytes (path : Path) (content : ByteArray) (tree : FileTree) :
    Except FileError FileTree := do
  match ← tree.spot path with
  | .directory _ => .error .isADirectory
  | .entry around name =>
      if path.endsInSlash then .error .isADirectory
      else
        match ← tree.entry? around name with
        | some .directory => .error .isADirectory
        | _ => .ok (tree.set (around ++ [name]) (.file content))

/-- The tree with one more directory; the one around it must exist. -/
def makeDirectory (path : Path) (tree : FileTree) : Except FileError FileTree := do
  match ← tree.spot path with
  | .directory _ => .error .alreadyExists
  | .entry around name =>
      match ← tree.entry? around name with
      | some _ => .error .alreadyExists
      | none => .ok (tree.set (around ++ [name]) .directory)

def removeDirectory (tree : FileTree) (path : Path) : FileTree :=
  match tree.spot path with
  | .error _ => tree
  | .ok spot =>
      match tree.node? spot.place with
      | some .directory =>
          { tree with
            nodes := ⟨tree.nodes.entries.filter fun entry => !spot.place.isPrefixOf entry.1⟩ }
      | _ => tree

end FileTree

/-! ## Changes in several steps -/

/-- Work on a file tree.  What was done before it failed stays done. -/
abbrev FileWork (ε α : Type) := ExceptT ε (StateM FileTree) α

namespace FileWork

def change {ε : Type} (update : FileTree → Except ε FileTree) : FileWork ε Unit := fun tree =>
  match update tree with
  | .ok after => (.ok (), after)
  | .error error => (.error error, tree)

def mapError {ε δ α : Type} (f : ε → δ) (work : FileWork ε α) : FileWork δ α := fun tree =>
  let (answer, after) := work tree
  (answer.mapError f, after)

/-- Makes a directory.  Another failure than a missing directory around it does not count when
the directory is there already. -/
def needDirectory (path : Path) : FileWork FileError Unit := fun tree =>
  match tree.makeDirectory path with
  | .ok after => (.ok (), after)
  | .error .notFound => (.error .notFound, tree)
  | .error error => (if tree.hasDirectory path then .ok () else .error error, tree)

/-- Makes the first of some directories; each is inside the next one, which is made first where
it is missing. -/
def needDirectories : List Path → FileWork FileError Unit
  | [] => pure ()
  | path :: around =>
      tryCatch (needDirectory path) fun
        | .notFound => do
            needDirectories around
            needDirectory path
        | error => throw error

/-- Makes the directory at a path and all directories around it.  Nothing needs to be made for
the empty path. -/
def makeDirectories (path : Path) : FileWork FileError Unit :=
  if path.text.isEmpty then pure () else needDirectories (path :: path.heads.tail)

def makeParents (path : Path) : FileWork FileError Unit :=
  needDirectories path.heads.tail

def writeBytes (path : Path) (content : ByteArray) : FileWork FileError Unit :=
  change (FileTree.writeBytes path content)

def writeText (path : Path) (text : String) : FileWork FileError Unit :=
  writeBytes path text.toUTF8

end FileWork

end SourceRecipe
