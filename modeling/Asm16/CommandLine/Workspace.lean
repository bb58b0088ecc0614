import Asm16.CommandLine.FileTree
import Asm16.CommandLine.Report

/-! A run of the command in a directory: from the arguments, the standard input and the files there
to the exit code, both output streams and the files afterwards. The output is created before the
input is opened, so a file that is both is read empty. -/

namespace Asm16.CommandLine

structure Workspace where
  stdin : Text := []
  files : Files := ∅

structure Outcome where
  exit : Nat
  stdout : Text
  stderr : Text
  files : Files

inductive Target where
  | stdout
  | stderr
  | file (path : Text)
  | sink
  /-- A device that is always full: every write fails. -/
  | full
  deriving DecidableEq, Repr

def operation (verb name reason : Text) : Text := verb ++ ascii " " ++ name ++ ascii ": " ++ reason

namespace Workspace

def openOutput (w : Workspace) (name : Text) : Except Text Target :=
  if name = ascii "-" then .ok .stdout
  else match w.files.locateForWriting name with
    | .error e => .error (operation (ascii "open") name e.message)
    | .ok (.file path) => .ok (.file path)
    | .ok (.vacant (some path)) => .ok (.file path)
    | .ok (.device .full) => .ok .full
    | .ok (.device .stdout) => .ok .stdout
    | .ok (.device .stderr) => .ok .stderr
    | .ok _ => .ok .sink

def openInput (w : Workspace) (name : Text) : Except Text Input :=
  if name = ascii "-" then .ok (.text w.stdin)
  else match w.files.locateForReading name with
    | .error e => .error (operation (ascii "open") name e.message)
    | .ok (.directory _) => .ok (.unreadable (operation (ascii "read") name Obstacle.isDirectory.message))
    | .ok (.file path) => .ok (.text (w.files.getD path []))
    | .ok (.device .stdin) => .ok (.text w.stdin)
    -- These give zeros without end, and reading stops at the line limit.
    | .ok (.device .zero) | .ok (.device .full) => .ok (.text (List.replicate Text.lineLimit 0))
    | .ok _ => .ok (.text [])

def created (w : Workspace) : Target → Workspace
  | .file path => { w with files := w.files.insert path [] }
  | _ => w

def ended (w : Workspace) (e : Ending) : Outcome := ⟨e.exit, [], e.message, w.files⟩

def failureLine : Option Text → Text
  | some message => message ++ [Text.newline]
  | none => []

/-- Carries a report out: the log, then the chunks, then the failure. -/
def finish (w : Workspace) (o : Options) (target : Target) (r : Report) : Outcome :=
  let exit := if r.failure.isSome then 1 else 0
  let stderr := r.log ++ failureLine r.failure
  match target with
  | .stdout => ⟨exit, r.chunks.flatten, stderr, w.files⟩
  | .stderr => ⟨exit, [], r.log ++ r.chunks.flatten ++ failureLine r.failure, w.files⟩
  | .file path => ⟨exit, [], stderr, w.files.insert path r.chunks.flatten⟩
  | .sink => ⟨exit, [], stderr, w.files⟩
  | .full =>
    if r.chunks.isEmpty then ⟨exit, [], stderr, w.files⟩
    else
      let message := operation (ascii "write") o.output (ascii "no space left on device")
      ⟨1, [], r.log ++ failureLine (some (about o.output message)), w.files⟩

def run (w : Workspace) (arguments : List Text) : Outcome :=
  match prepare arguments with
  | .error e => w.ended e
  | .ok o =>
    match w.openOutput o.output with
    | .error reason => w.ended (.fatal (about o.output reason))
    | .ok target =>
      let w := w.created target
      match w.openInput o.input with
      | .error reason => w.ended (.fatal (about o.input reason))
      | .ok input => w.finish o target (report o input)

end Workspace
end Asm16.CommandLine
