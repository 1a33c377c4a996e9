import ClassLang.Command.Execute

/-!
# The program

Runs the command on the files of the disk.  The log goes to the standard error,
filtered by the variable `RUST_LOG` if that is set.
-/

namespace ClassLang.Command

/-- The reason that the system gives for a failure. -/
def systemReason : IO.Error → String
  | .noFileOrDirectory _ _ _ => "No such file or directory (os error 2)"
  | .permissionDenied _ _ _ => "Permission denied (os error 13)"
  | .inappropriateType _ 20 _ => "Not a directory (os error 20)"
  | .inappropriateType _ 21 _ => "Is a directory (os error 21)"
  | .invalidArgument _ 36 _ => "File name too long (os error 36)"
  | error => error.toString

/-- The system that reads and writes the files of the disk. -/
def disk : System IO String where
  read path := do
    match ← (IO.FS.readBinFile path).toBaseIO with
    | .error error => return .error (systemReason error)
    | .ok content =>
      match String.fromUTF8? content with
      | none => return .error "stream did not contain valid UTF-8"
      | some text => return .ok text
  write path text := do
    match ← (IO.FS.writeFile path text).toBaseIO with
    | .error error => return .error (systemReason error)
    | .ok _ => return .ok ()
  report event := IO.eprintln event.line

end ClassLang.Command

open ClassLang.Command in
def main (arguments : List String) : IO UInt32 := do
  let exit ← disk.run arguments (← IO.getEnv "RUST_LOG")
  IO.print exit.output
  match exit with
  | .failed error => IO.eprintln ("error: " ++ error.message)
  | .refused .malformed => IO.eprintln "error: unexpected arguments"
  | .crashed => IO.eprintln "error: the log setting cannot be cut into its parts"
  | _ => pure ()
  return exit.exitCode.toUInt32
