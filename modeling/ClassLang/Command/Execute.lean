import ClassLang.Command.LogFilter
import ClassLang.Command.Trace
import ClassLang.Program.Outline

/-!
# The command

The command reads a source file, turns it into the requested output and writes
that to another file.  Nothing is written unless all of it succeeds.

How files are read and written is up to the system that the command runs on, which
may fail for reasons of its own.
-/

namespace ClassLang.Command

/-- What a system does for the command.  Reading and writing may fail, and then `ε`
says why. -/
structure System (m : Type → Type) (ε : Type) where
  /-- The text of a file. -/
  read : (path : String) → m (Except ε String)
  write : (path text : String) → m (Except ε Unit)
  report : Event → m Unit

/-- Why the command fails. -/
inductive Error (ε : Type) where
  | read (path : String) (reason : ε)
  | write (path : String) (reason : ε)
  | compile (error : CompileError)
deriving DecidableEq

section
variable {ε : Type} [ToString ε]

def Error.message : Error ε → String
  | read path reason => "failed to read " ++ path ++ ": " ++ toString reason
  | write path reason => "failed to write " ++ path ++ ": " ++ toString reason
  | compile error => error.stage ++ ": " ++ error.message

end

/-- The requested output for a source text. -/
def render (emit : Emit) (source : String) : Except CompileError String :=
  match emit with
  | .tokens => do
    let tokens ← Source.tokens source
    return Text.unlines (tokens.map Token.text)
  | .outline => do
    let program ← Source.program source
    return program.outlineText
  | .script => compile source

/-- What the command prints when it is not given two paths. -/
def usage : String :=
  Text.unlines
    ["usage: oopc <input.oop> <output.js>",
      "compiles an .oop source file into a JavaScript program"]

/-- How the command ends. -/
inductive Exit (ε : Type) where
  /-- The arguments cannot be understood, or ask for help. -/
  | refused (refusal : Refusal)
  /-- There is no log filter for the log setting. -/
  | crashed
  /-- There are not two paths, and the usage is printed. -/
  | misused
  | failed (error : Error ε)
  | done
deriving DecidableEq

namespace Exit
variable {ε : Type}

def exitCode : Exit ε → Nat
  | refused .help | done => 0
  | failed _ => 1
  | refused .malformed | misused => 2
  | crashed => 101

/-- What the command says on the standard output. -/
def output : Exit ε → String
  | refused .help | misused => usage
  | _ => ""

end Exit

namespace System
variable {m : Type → Type} {ε : Type}

/-- The system with a log that shows only what a filter lets through. -/
def showing [Monad m] (system : System m ε) (filter : LogFilter) : System m ε :=
  { system with report := fun event => if filter.shows event then system.report event else pure () }

variable [Monad m] (system : System m ε)

def reportAll (events : List Event) : m Unit :=
  events.forM system.report

/-- Reads `input` and writes the requested output to `output`. -/
def execute (emit : Emit) (input output : String) : m (Except (Error ε) Unit) := do
  match ← system.read input with
  | .error reason => return .error (.read input reason)
  | .ok source =>
    system.reportAll (.readSource input source.utf8ByteSize :: compileEvents emit source)
    match render emit source with
    | .error error => return .error (.compile error)
    | .ok text =>
      match ← system.write output text with
      | .error reason => return .error (.write output reason)
      | .ok _ =>
        system.report (.wroteOutput output text.utf8ByteSize)
        return .ok ()

/-- Runs the command with the given arguments and the given log setting. -/
def run (arguments : List String) (logSetting : Option String) : m (Exit ε) := do
  match Request.ofArguments arguments with
  | .error refusal => return .refused refusal
  | .ok request =>
    match LogFilter.choose logSetting request.verbosity, request.paths with
    | none, _ => return .crashed
    | some filter, [input, output] =>
      match ← (system.showing filter).execute request.emit input output with
      | .error error => return .failed error
      | .ok _ => return .done
    | some _, _ => return .misused

end System

end ClassLang.Command
