import ClassLang.Grammar.Program
import ClassLang.Script.Lowering
import ClassLang.Token.Scan

/-!
# Compiling a source text

A source text is scanned, parsed, checked and lowered to a script.  The first
stage that fails gives the error.
-/

namespace ClassLang

/-- A failure of one of the stages. -/
inductive CompileError where
  | scan (error : ScanError)
  | parse (error : ParseError)
  | type (error : TypeError)
  | lowering (error : LoweringError)
deriving DecidableEq

namespace CompileError

/-- The name of the stage that failed. -/
def stage : CompileError → String
  | scan _ => "tokenizer"
  | parse _ => "parser"
  | type _ => "type checker"
  | lowering _ => "code generator"

def message : CompileError → String
  | scan error => error.message
  | parse error => error.message
  | type error => error.message
  | lowering error => error.message

end CompileError

namespace Source

def tokens (source : String) : Except CompileError (List Token) :=
  (Token.scan source).mapError .scan

def program (source : String) : Except CompileError (Program Plain) := do
  let tokens ← tokens source
  (Program.parse tokens).mapError .parse

def script (source : String) : Except CompileError Script := do
  let program ← program source
  let checked ← program.check.mapError .type
  checked.lower.mapError .lowering

end Source

/-- Compiles a source text to JavaScript. -/
def compile (source : String) : Except CompileError String := do
  let script ← Source.script source
  return script.text

end ClassLang
