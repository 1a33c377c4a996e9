/-!
# Command line arguments

The command takes the path of the source file and the path of the file to write.
Options may stand anywhere before a `--`: `-v` and `--verbose`, which are
counted, and `--emit`, which says what to write and may be given once.

The rules for options are those of the library that the command reads its arguments
with.  No theorem is about them.
-/

namespace ClassLang.Command

/-- What is written to the output file. -/
inductive Emit where
  /-- One token on each line. -/
  | tokens
  /-- The outline of the parsed program. -/
  | outline
  /-- The compiled program. -/
  | script
deriving DecidableEq

/-- The kind of output with the given name, in lower case only. -/
def Emit.ofText? : String → Option Emit
  | "tokens" => some .tokens
  | "ast" => some .outline
  | "js" => some .script
  | _ => none

/-- What the arguments ask for. -/
structure Request where
  paths : List String
  verbosity : Nat
  emit : Emit
deriving DecidableEq

/-- Why the arguments ask for nothing that can be run. -/
inductive Refusal where
  | help
  | malformed
deriving DecidableEq

/-- What has been read of the arguments, the latest path first. -/
structure Progress where
  paths : List String
  verbosity : Nat
  emit : Option Emit

namespace Progress

def start : Progress := ⟨[], 0, none⟩

def addPath (progress : Progress) (path : String) : Except Refusal Progress :=
  if path = "" then .error .malformed
  else .ok { progress with paths := path :: progress.paths }

def addVerbose (progress : Progress) : Progress :=
  { progress with verbosity := progress.verbosity + 1 }

/-- Reads the value of `--emit`, which may be given only once. -/
def setEmit (progress : Progress) (value : String) : Except Refusal Progress :=
  match progress.emit, Emit.ofText? value with
  | none, some emit => .ok { progress with emit := some emit }
  | _, _ => .error .malformed

/-- Reads the letters of an argument such as `-vv`. -/
def addLetters (progress : Progress) : List Char → Except Refusal Progress
  | [] => .ok progress
  | 'v' :: rest => progress.addVerbose.addLetters rest
  | 'h' :: _ => .error .help
  | _ :: _ => .error .malformed

/-- Reads arguments that are all paths. -/
def addPaths (progress : Progress) : List String → Except Refusal Progress
  | [] => .ok progress
  | path :: rest => do
    let progress ← progress.addPath path
    progress.addPaths rest

/-- Reads arguments up to the first one that cannot be understood. -/
def read (progress : Progress) : List String → Except Refusal Progress
  | [] => .ok progress
  | "--" :: rest => progress.addPaths rest
  | "--help" :: _ => .error .help
  | "--verbose" :: rest => progress.addVerbose.read rest
  | ["--emit"] => .error .malformed
  | "--emit" :: value :: rest => do
    let progress ← progress.setEmit value
    progress.read rest
  | argument :: rest => do
    let progress ←
      match argument.toList with
      | '-' :: '-' :: 'e' :: 'm' :: 'i' :: 't' :: '=' :: value =>
        progress.setEmit (String.ofList value)
      | '-' :: '-' :: _ => .error .malformed
      | '-' :: letter :: letters => progress.addLetters (letter :: letters)
      | _ => progress.addPath argument
    progress.read rest

end Progress

/-- What the arguments ask for.  Without `--emit` that is the compiled program. -/
def Request.ofArguments (arguments : List String) : Except Refusal Request := do
  let progress ← Progress.start.read arguments
  return ⟨progress.paths.reverse, progress.verbosity, progress.emit.getD .script⟩

end ClassLang.Command
