import DurableMessaging.Settings

/-!
# Settings files

Reading settings from a file in a tree of directories.
-/

namespace DurableMessaging

/-- Why a file cannot be read as text. -/
inductive FileError where
  | notFound
  | notADirectory
  | isADirectory
  | nameTooLong
  | nulInName
  | notText
  deriving DecidableEq, Repr

def FileError.message : FileError → String
  | .notFound => "No such file or directory (os error 2)"
  | .notADirectory => "Not a directory (os error 20)"
  | .isADirectory => "Is a directory (os error 21)"
  | .nameTooLong => "File name too long (os error 36)"
  | .nulInName => "file name contained an unexpected NUL byte"
  | .notText => "stream did not contain valid UTF-8"

/-- What stands at a path. -/
inductive FileNode where
  | file (content : ByteArray)
  | directory (entries : List (String × FileNode))

namespace FileNode

/-- Bytes in the longest name of an entry. -/
def longestName : Nat := 255

/-- Bytes in the longest path. -/
def longestPath : Nat := 4095

/-- Follows the names of a path; `above` holds the directories on the way, the nearest first. An
empty name stays where it is, as a single dot does. -/
def follow (above : List FileNode) (node : FileNode) : List String → Except FileError FileNode
  | [] => .ok node
  | name :: names =>
    match node with
    | .file _ => .error .notADirectory
    | .directory entries =>
      if name = "" ∨ name = "." then follow above node names
      else if name = ".." then
        match above with
        | [] => follow [] node names
        | parent :: above => follow above parent names
      else if longestName < name.utf8ByteSize then .error .nameTooLong
      else
        match entries.lookup name with
        | none => .error .notFound
        | some child => follow (node :: above) child names

/-- The names along a path. A path that does not start at the root starts in the working directory,
to which the names `work` lead. -/
def names (work : List String) (path : String) : List String :=
  if path.startsWith "/" then path.splitOn "/" else work ++ path.splitOn "/"

/-- The file or directory at a path. -/
def find (root : FileNode) (work : List String) (path : String) : Except FileError FileNode :=
  if path.toList.contains '\x00' then .error .nulInName
  else if path = "" then .error .notFound
  else if longestPath < path.utf8ByteSize then .error .nameTooLong
  else follow [] root (names work path)

/-- The text of the file at a path. -/
def readText (root : FileNode) (work : List String) (path : String) :
    Except FileError String := do
  match ← root.find work path with
  | .directory _ => throw .isADirectory
  | .file content =>
    match String.fromUTF8? content with
    | none => throw .notText
    | some text => return text

end FileNode

/-- Settings from the file at a path, checked. -/
def Settings.loadFile (root : FileNode) (work : List String) (path : String) :
    Except SettingsError Settings :=
  match root.readText work path with
  | .error e => .error (.unreadable path e.message)
  | .ok text => load text

end DurableMessaging
