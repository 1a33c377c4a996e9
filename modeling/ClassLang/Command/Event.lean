import ClassLang.Name

/-!
# Log events

While it works the command reports what it is doing.  Each event has a level, a
target that names the part of the compiler it comes from, a summary, and fields
that give the details.
-/

namespace ClassLang.Command

/-- How much detail an event gives, the most important level first. -/
inductive Level where
  | error | warn | info | debug | trace
deriving DecidableEq

namespace Level

def text : Level → String
  | error => "ERROR"
  | warn => "WARN"
  | info => "INFO"
  | debug => "DEBUG"
  | trace => "TRACE"

/-- The number of a level, counted from the most important one. -/
def rank : Level → Nat
  | error => 1
  | warn => 2
  | info => 3
  | debug => 4
  | trace => 5

end Level

inductive Event where
  | readSource (path : String) (bytes : Nat)
  | tokenized (tokens : Nat)
  | parsed (classes : Nat)
  | checkingClass (name : ClassName)
  | checkingMethod (owner : ClassName) (method : MethodName)
  | typeChecked (classes : Nat)
  | builtTable (name : ClassName) (slots : Nat)
  | generatingClass (name : ClassName)
  | generatedCode (bytes : Nat)
  | wroteOutput (path : String) (bytes : Nat)
deriving DecidableEq

namespace Event

/-- Work on a single class or method is a trace, a finished stage is not. -/
def level : Event → Level
  | checkingClass _ | checkingMethod _ _ | builtTable _ _ | generatingClass _ => .trace
  | _ => .debug

def target : Event → String
  | readSource _ _ | wroteOutput _ _ => "oopc"
  | tokenized _ => "oop::lexer"
  | parsed _ => "oop::parser"
  | checkingClass _ | checkingMethod _ _ | typeChecked _ => "oop::type_checker"
  | builtTable _ _ => "oop::code_gen::vtable"
  | generatingClass _ | generatedCode _ => "oop::code_gen"

/-- What happened, without the details. -/
def summary : Event → String
  | readSource _ _ => "read source"
  | tokenized _ => "tokenized source"
  | parsed _ => "parsed program"
  | checkingClass _ => "checking class"
  | checkingMethod _ _ => "checking method"
  | typeChecked _ => "type checked program"
  | builtTable _ _ => "built vtable"
  | generatingClass _ => "generating class"
  | generatedCode _ => "generated code"
  | wroteOutput _ _ => "wrote output"

/-- The details of an event, each with a name. -/
def fields : Event → List (String × String)
  | readSource path bytes | wroteOutput path bytes => [("path", path), ("bytes", bytes.repr)]
  | tokenized tokens => [("tokens", tokens.repr)]
  | parsed classes | typeChecked classes => [("classes", classes.repr)]
  | checkingClass name | generatingClass name => [("class", name.text)]
  | checkingMethod owner method => [("class", owner.text), ("method", method.text)]
  | builtTable name slots => [("class", name.text), ("slots", slots.repr)]
  | generatedCode bytes => [("bytes", bytes.repr)]

/-- The names of everything that an event carries, its summary included. -/
def fieldNames (event : Event) : List String :=
  "message" :: event.fields.map Prod.fst

/-- The summary of an event and its details after it. -/
def message (event : Event) : String :=
  event.summary ++ String.join (event.fields.map fun (name, value) => " " ++ name ++ "=" ++ value)

/-- The line that shows an event. -/
def line (event : Event) : String :=
  event.level.text ++ " " ++ event.target ++ ": " ++ event.message

end Event

end ClassLang.Command
