import Asm16.CommandLine.Workspace

/-! The command on real files. The output is created first, then the input is opened and read to
its end, and the report on it is carried out. -/

namespace Asm16.CommandLine

def argumentBytes (argument : String) : Text := argument.toUTF8.toList

def argumentOf (t : Text) : String := (String.fromUTF8? ⟨t.toArray⟩).getD ""

def failureReason : IO.Error → Text
  | .otherError _ details | .resourceBusy _ details | .resourceVanished _ details
  | .unsupportedOperation _ details | .hardwareFault _ details
  | .unsatisfiedConstraints _ details | .illegalOperation _ details
  | .protocolError _ details | .timeExpired _ details | .interrupted _ _ details
  | .alreadyExists _ _ details | .noFileOrDirectory _ _ details
  | .invalidArgument _ _ details | .permissionDenied _ _ details
  | .resourceExhausted _ _ details | .inappropriateType _ _ details
  | .noSuchThing _ _ details | .userError details => argumentBytes details.toLower
  | .unexpectedEof => ascii "end of file"

def writeText (stream : IO.FS.Stream) (t : Text) : IO Unit := stream.write ⟨t.toArray⟩

partial def readAll (stream : IO.FS.Stream) (done : ByteArray) : IO ByteArray := do
  let block ← stream.read 65536
  if block.isEmpty then return done else readAll stream (done ++ block)

def fail (subject message : Text) : IO UInt32 := do
  writeText (← IO.getStderr) (about subject message ++ [Text.newline])
  return 1

/-- A stream for a name, or the reason why there is none; a dash stands for the given stream. -/
def openStream (name : Text) (dashed : IO.FS.Stream) (mode : IO.FS.Mode) :
    IO (Except Text IO.FS.Stream) := do
  if name = ascii "-" then return .ok dashed
  try return .ok (.ofHandle (← IO.FS.Handle.mk (argumentOf name) mode))
  catch e => return .error (operation (ascii "open") name (failureReason e))

def readInput (name : Text) (stream : IO.FS.Stream) : IO Input := do
  try return .text (← readAll stream .empty).toList
  catch e => return .unreadable (operation (ascii "read") name (failureReason e))

/-- Writes the chunks; a failure to write ends the run in place of the report's own. -/
def carryOut (o : Options) (stream : IO.FS.Stream) (r : Report) : IO UInt32 := do
  writeText (← IO.getStderr) r.log
  try
    r.chunks.forM (writeText stream)
    stream.flush
  catch e => return ← fail o.output (operation (ascii "write") o.output (failureReason e))
  match r.failure with
  | some message =>
    writeText (← IO.getStderr) (message ++ [Text.newline])
    return 1
  | none => return 0

def command (arguments : List Text) : IO UInt32 := do
  match prepare arguments with
  | .error e =>
    writeText (← IO.getStderr) e.message
    return e.exit.toUInt32
  | .ok o =>
    match ← openStream o.output (← IO.getStdout) .write with
    | .error reason => fail o.output reason
    | .ok output =>
      match ← openStream o.input (← IO.getStdin) .read with
      | .error reason => fail o.input reason
      | .ok input => carryOut o output (report o (← readInput o.input input))

end Asm16.CommandLine

def main (args : List String) : IO UInt32 :=
  Asm16.CommandLine.command (args.map Asm16.CommandLine.argumentBytes)
