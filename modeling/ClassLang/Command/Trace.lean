import ClassLang.Command.Arguments
import ClassLang.Command.Event
import ClassLang.Compile

/-!
# The events of a compilation

Which events a compilation reports follows from how far it gets.  A step that
fails is still reported when it starts, and nothing after it is.
-/

namespace ClassLang.Command

/-- The events of steps in order, up to the first step that fails. -/
def reached : List (Event × Bool) → List Event
  | [] => []
  | (event, succeeds) :: rest => event :: if succeeds then reached rest else []

/-- The steps of checking a class: first everything but the methods, then one
method after the other. -/
def classSteps (hierarchy : Hierarchy Plain) (definition : ClassDef Plain) :
    List (Event × Bool) :=
  match definition.checkConstructor hierarchy with
  | .error _ => [(.checkingClass definition.name, false)]
  | .ok checked =>
    (.checkingClass definition.name, true) :: definition.methods.map fun method =>
      (.checkingMethod definition.name method.name,
        (method.check hierarchy definition.name checked.fields).isOk)

/-- The events of checking a program. -/
def checkEvents (program : Program Plain) : List Event :=
  let steps :=
    match program.hierarchy with
    | .error _ => []
    | .ok hierarchy => program.classes.flatMap (classSteps hierarchy)
  reached steps ++
    match program.check with
    | .error _ => []
    | .ok checked => [.typeChecked checked.classes.length]

/-- The events of lowering a program to a script. -/
def lowerEvents (program : Program Resolved) : List Event :=
  match program.hierarchy with
  | .error _ => []
  | .ok hierarchy =>
    let tables := DispatchTables.build hierarchy
    let steps := program.classes.map fun definition =>
      (Event.generatingClass definition.name, (definition.lower tables).isOk)
    tables.tail.map (fun (name, table) => .builtTable name table.size) ++ reached steps ++
      match program.lower with
      | .error _ => []
      | .ok script => [.generatedCode script.text.utf8ByteSize]

/-- The events of turning a source text into the given kind of output. -/
def compileEvents (emit : Emit) (source : String) : List Event :=
  match Token.scan source with
  | .error _ => []
  | .ok tokens =>
    .tokenized tokens.length ::
      if emit = .tokens then []
      else
        match Program.parse tokens with
        | .error _ => []
        | .ok program =>
          .parsed program.classes.length ::
            if emit = .outline then []
            else
              checkEvents program ++
                match program.check with
                | .error _ => []
                | .ok checked => lowerEvents checked

end ClassLang.Command
