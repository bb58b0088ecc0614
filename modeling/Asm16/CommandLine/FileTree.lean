import Std.Data.TreeMap
import Asm16.Text.Basic

/-! The files that a run can name. A name is a path: its components are the pieces between slashes,
and it starts in the working directory or, after a leading slash, at the root. Known are the files
of the working directory by their paths, the devices, and the directories around them; any other
place holds no file, but one can be made there. -/

namespace Asm16.CommandLine

/-- The files of the working directory with their contents. -/
abbrev Files := Std.TreeMap Text Text

inductive Device where
  | null
  | zero
  | full
  | stdin
  | stdout
  | stderr
  deriving DecidableEq, Repr

def Device.ofName? (name : Text) : Option Device :=
  if name = ascii "null" then some null
  else if name = ascii "zero" then some zero
  else if name = ascii "full" then some full
  else if name = ascii "stdin" then some stdin
  else if name = ascii "stdout" then some stdout
  else if name = ascii "stderr" then some stderr
  else none

inductive Directory where
  /-- The working directory or one below it, by its components from the innermost out. -/
  | inside (components : List Text)
  | outside
  | root
  | devices
  deriving DecidableEq, Repr

inductive Node where
  | directory (d : Directory)
  | file (path : Text)
  | device (d : Device)
  /-- No file yet; with its path if it would be one of the working directory. -/
  | vacant (path : Option Text)
  deriving DecidableEq, Repr

inductive Obstacle where
  | noSuchFile
  | isDirectory
  | notDirectory
  | nameTooLong
  deriving DecidableEq, Repr

def Obstacle.message : Obstacle → Text
  | noSuchFile => ascii "no such file or directory"
  | isDirectory => ascii "is a directory"
  | notDirectory => ascii "not a directory"
  | nameTooLong => ascii "file name too long"

def slash : UInt8 := '/'.toUInt8

def componentLimit : Nat := 255

def pathLimit : Nat := 4095

def topDirectories : List Text :=
  [ascii "bin", ascii "boot", ascii "etc", ascii "home", ascii "lib", ascii "media", ascii "mnt", ascii "opt",
    ascii "proc", ascii "root", ascii "run", ascii "sbin", ascii "srv", ascii "sys", ascii "tmp", ascii "usr",
    ascii "var"]

/-- The directory that holds a directory. The root holds itself. -/
def Directory.parent : Directory → Directory
  | inside [] => outside
  | inside (_ :: rest) => inside rest
  | outside => outside
  | root => root
  | devices => root

def pathOf (components : List Text) : Text := List.intercalate [slash] components.reverse

namespace Files

def hasBelow (files : Files) (path : Text) : Bool :=
  files.toList.any fun f => (path ++ [slash]).isPrefixOf f.1

def child (files : Files) (name : Text) : Directory → Node
  | .inside components =>
    let path := pathOf (name :: components)
    if files.contains path then .file path
    else if hasBelow files path then .directory (.inside (name :: components))
    else .vacant (some path)
  | .outside => .vacant none
  | .root =>
    if name = ascii "dev" then .directory .devices
    else if topDirectories.contains name then .directory .outside
    else .vacant none
  | .devices =>
    match Device.ofName? name with
    | some d => .device d
    | none => .vacant none

def enter (files : Files) (d : Directory) (component : Text) : Node :=
  if component = ascii "." then .directory d
  else if component = ascii ".." then .directory d.parent
  else child files component d

/-- Follows components from a directory. Only the last may be something else than a directory. -/
def walk (files : Files) (d : Directory) : List Text → Except Obstacle Node
  | [] => .ok (.directory d)
  | component :: rest =>
    if componentLimit < component.length then .error .nameTooLong
    else match enter files d component with
      | .directory d => walk files d rest
      | node =>
        if rest.isEmpty then .ok node
        else match node with
          | .vacant _ => .error .noSuchFile
          | _ => .error .notDirectory

def locate (files : Files) (name : Text) : Except Obstacle Node :=
  if name.isEmpty then .error .noSuchFile
  else if pathLimit < name.length then .error .nameTooLong
  else
    let start := if name.head? = some slash then Directory.root else Directory.inside []
    walk files start ((name.splitOn slash).filter fun component => !component.isEmpty)

/-- What can be read under a name; a file that is named as a directory cannot. -/
def locateForReading (files : Files) (name : Text) : Except Obstacle Node :=
  match locate files name with
  | .error e => .error e
  | .ok (.vacant _) => .error .noSuchFile
  | .ok (.directory d) => .ok (.directory d)
  | .ok node => if name.getLast? = some slash then .error .notDirectory else .ok node

/-- What can be written under a name: no directory, and nothing that is named as one. -/
def locateForWriting (files : Files) (name : Text) : Except Obstacle Node :=
  match locate files name with
  | .error e => .error e
  | .ok (.directory _) => .error .isDirectory
  | .ok node => if name.getLast? = some slash then .error .isDirectory else .ok node

end Files
end Asm16.CommandLine
