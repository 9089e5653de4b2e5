import BrickMachine.Text.Utf8

/-!
# Files

Programs and settings are read from files. A path is a row of names between slashes. It is
followed name by name, from the root if it starts with a slash and otherwise from the working
directory, and reading it gives the bytes of the file that it leads to, or why there are none.

`Node.follow` carries the directories above the current one along, innermost first, so that `..`
needs no search; the root is its own parent. A `Directory` is a working directory of files that are
already in memory. Of its surroundings only what every system has is known.
-/

namespace BrickMachine

inductive ReadError where
  | notFound
  | isDirectory
  | notDirectory
  | nameTooLong
  | nulInPath
  | notText
  | other (message : String)
  deriving DecidableEq, Repr

def ReadError.message : ReadError → String
  | notFound => "No such file or directory (os error 2)"
  | isDirectory => "Is a directory (os error 21)"
  | notDirectory => "Not a directory (os error 20)"
  | nameTooLong => "File name too long (os error 36)"
  | nulInPath => "file name contained an unexpected NUL byte"
  | notText => "stream did not contain valid UTF-8"
  | other message => message

abbrev Files := String → Except ReadError (List UInt8)

def Files.text (files : Files) (path : String) : Except ReadError String := do
  let bytes ← files path
  match Utf8.decode? bytes with
  | some s => .ok s
  | none => .error .notText

inductive Node where
  | file (bytes : List UInt8)
  | directory (entries : List (String × Node))

namespace Node

def maxNameSize : Nat := 255

/-- The node that names lead to, where `parents` are the directories above the current node,
innermost first. In a directory an empty name and `.` mean the directory itself; a file has no
names in it. -/
def follow (parents : List Node) : Node → List String → Except ReadError Node
  | n, [] => .ok n
  | .file _, _ :: _ => .error .notDirectory
  | .directory entries, name :: rest =>
    if name = "" ∨ name = "." then follow parents (.directory entries) rest
    else if name = ".." then
      match parents with
      | [] => follow [] (.directory entries) rest
      | parent :: above => follow above parent rest
    else if maxNameSize < name.utf8ByteSize then .error .nameTooLong
    else
      match entries.lookup name with
      | some n => follow (.directory entries :: parents) n rest
      | none => .error .notFound

def bytes : Node → Except ReadError (List UInt8)
  | .file bytes => .ok bytes
  | .directory _ => .error .isDirectory

end Node

/-- A working directory that holds files only. -/
structure Directory where
  entries : List (String × List UInt8)
  deriving DecidableEq, Repr

namespace Directory

def maxPathSize : Nat := 4095

def toNode (d : Directory) : Node :=
  .directory (d.entries.map fun (name, bytes) => (name, .file bytes))

def temporary : Node := .directory []

/-- The root. Every system has a directory for temporary files, and one for devices with a device
that has nothing to read. -/
def root : Node :=
  .directory [("tmp", temporary), ("dev", .directory [("null", .file [])])]

def read (d : Directory) : Files := fun path =>
  if path.toList.contains '\x00' then .error .nulInPath
  else if path = "" then .error .notFound
  else if maxPathSize < path.utf8ByteSize then .error .nameTooLong
  else do
    let names := path.splitOn "/"
    let n ←
      if path.startsWith "/" then root.follow [] names
      else d.toNode.follow [temporary, root] names
    n.bytes

end Directory

end BrickMachine
