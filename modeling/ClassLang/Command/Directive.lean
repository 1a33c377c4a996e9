import ClassLang.Command.Event
import ClassLang.Command.Pattern.Reading
import ClassLang.Text.Bytes

/-!
# Log directives

A directive sets the level of detail for some of the events.  It is written
`target[span{field=value}]=level`, where every part may be missing:

* `target` is for the events whose target starts with that text;
* `[span]` is for what happens inside of a span with that name;
* `[{field}]` is for the events that have a field with that name, and
  `[{field=value}]` for the spans in which it has that value as well, where the
  value is a number or a pattern;
* `level` alone is for all events, and a directive without a level asks for full
  detail.

A directive without a level part and without brackets is a level if it can be
read as one, and a target otherwise.

The blanks around a directive do not count when its parts are looked for, but
the parts are cut out of the whole text.  So blanks in front of a directive move
all of its parts to the left, and no part can be cut out if that splits a
character.

These are the rules of the library that the command logs with.  No theorem is about
them.
-/

namespace ClassLang.Command

/-- The level up to which events are shown, if any. -/
abbrev Detail := Option Level

namespace Detail

/-- Every event is shown. -/
def full : Detail := some .trace

/-- Whether a level is within the detail. -/
def covers (detail : Detail) (level : Level) : Bool :=
  match detail with
  | none => false
  | some limit => level.rank ≤ limit.rank

/-- A level by number, which is its rank. -/
def ofNumber? : Nat → Option Detail
  | 0 => some none
  | 1 => some (some .error)
  | 2 => some (some .warn)
  | 3 => some (some .info)
  | 4 => some (some .debug)
  | 5 => some (some .trace)
  | _ => none

/-- A level by name, in any case. -/
def ofName? (text : List Char) : Option Detail :=
  match String.ofList (text.map Char.toLower) with
  | "off" => some none
  | "error" => some (some .error)
  | "warn" => some (some .warn)
  | "info" => some (some .info)
  | "debug" => some (some .debug)
  | "trace" => some (some .trace)
  | _ => none

/-- A level by name or by number.  A number may have leading zeros and a plus sign. -/
def ofText? (text : List Char) : Option Detail :=
  let digits := if text.head? = some '+' then text.tail else text
  if digits ≠ [] ∧ digits.all Char.isDigit then ofNumber? (Nat.ofDigitChars 10 digits 0)
  else ofName? text

/-- The detail that the number of `-v` options asks for. -/
def ofVerbosity : Nat → Detail
  | 0 => some .warn
  | 1 => some .debug
  | _ => some .trace

end Detail

/-- Why a directive cannot be read. -/
inductive DirectiveError where
  | malformed
  /-- A part of it would begin or end inside of a character. -/
  | splitsCharacter
deriving DecidableEq

/-- The field that a directive asks for, perhaps with a value. -/
structure FieldQuery where
  name : List Char
  value : Option (List Char)
deriving DecidableEq

namespace FieldQuery

/-- A text without a sign in front of it. -/
def dropSign (text : List Char) : List Char :=
  if text.head? = some '+' ∨ text.head? = some '-' then text.tail else text

/-- Nothing, or an exponent of digits. -/
def isExponent : List Char → Bool
  | [] => true
  | c :: rest => c.toLower = 'e' && dropSign rest ≠ [] && (dropSign rest).all Char.isDigit

/-- A decimal number with digits on at least one side of the point. -/
def isDecimal (text : List Char) : Bool :=
  let whole := text.takeWhile Char.isDigit
  match text.dropWhile Char.isDigit with
  | '.' :: rest =>
    !(whole.isEmpty && (rest.takeWhile Char.isDigit).isEmpty)
      && isExponent (rest.dropWhile Char.isDigit)
  | rest => !whole.isEmpty && isExponent rest

/-- A number, finite or not, with or without a sign. -/
def isNumber (text : List Char) : Bool :=
  let magnitude := dropSign text
  isDecimal magnitude
    || String.ofList (magnitude.map Char.toLower) ∈ ["inf", "infinity", "nan"]

/-- Whether a text can be the value of a field. -/
def isValue (text : List Char) : Bool :=
  isNumber text ||
    match Pattern.ofText? text with
    | some pattern => pattern.isUsable
    | none => false

/-- Reads `name` or `name=value`.  What follows another `=` is ignored. -/
def ofText? (text : List Char) : Option FieldQuery :=
  let name := text.takeWhile (· ≠ '=')
  match text, text.dropWhile (· ≠ '=') with
  | [], _ => none
  | _, [] => some ⟨name, none⟩
  | _, _ :: rest =>
    let value := rest.takeWhile (· ≠ '=')
    if isValue value then some ⟨name, some value⟩ else none

end FieldQuery

structure Directive where
  /-- The text that targets have to start with, empty if all of them are meant. -/
  target : List Char
  span : Option (List Char)
  field : Option FieldQuery
  detail : Detail
deriving DecidableEq

namespace Directive

/-- A directive for all events. -/
def all (detail : Detail) : Directive := ⟨[], none, none, detail⟩

/-- A directive starts with a bracket or a target, and a target with a letter or
digit of any script, `-`, `:` or `_`. -/
def isStart (c : Char) : Bool :=
  c = '[' || c = '-' || c = ':' || c = '_' || Text.isAlphanumeric c

/-- The characters that end a target. -/
def endsTarget (c : Char) : Bool :=
  c = '=' || c = '['

/-- The characters that end the name of a span. -/
def endsSpan (c : Char) : Bool :=
  c = ']' || c = '\x7b'

/-- The text of a directive: `whole` as it is written, `body` without the blanks
around it. -/
structure Source where
  whole : List Char
  body : List Char

namespace Source

/-- The position of a rest of the body, in bytes. -/
def position (source : Source) (rest : List Char) : Nat :=
  Text.byteCount source.body - Text.byteCount rest

/-- Cuts out the part between two rests of the body. -/
def part (source : Source) (first last : List Char) : Except DirectiveError (List Char) :=
  match Text.slice? (source.position first) (source.position last) source.whole with
  | some part => .ok part
  | none => .error .splitsCharacter

/-- Cuts out everything from a rest of the body on. -/
def partFrom (source : Source) (first : List Char) : Except DirectiveError (List Char) :=
  match Text.dropBytes? (source.position first) source.whole with
  | some part => .ok part
  | none => .error .splitsCharacter

/-- The detail that is written after a `=`, which is full if no level follows. -/
def detail (source : Source) (level : List Char) : Except DirectiveError Detail := do
  match ← source.partFrom level with
  | [] => return .full
  | text =>
    match Detail.ofText? text with
    | some detail => return detail
    | none => .error .malformed

/-- The detail after a closing bracket, which is full if nothing follows. -/
def detailAfterBracket (source : Source) : List Char → Except DirectiveError Detail
  | [] => .ok .full
  | '=' :: level => source.detail level
  | _ => .error .malformed

/-- Reads what comes after the brace that opens a field. -/
def field (source : Source) (inner : List Char) :
    Except DirectiveError (FieldQuery × List Char) := do
  match inner.dropWhile (· ≠ '\x7d') with
  | [] => .error .malformed
  | brace :: rest =>
    match FieldQuery.ofText? (← source.part inner (brace :: rest)), rest with
    | some query, ']' :: after => return (query, after)
    | _, _ => .error .malformed

/-- Reads what comes after the bracket that opens a span.  The span may be left
out before a field, where an empty name is none. -/
def bracketed (source : Source) (target inner : List Char) :
    Except DirectiveError Directive := do
  match inner.dropWhile (!endsSpan ·) with
  | [] => .error .malformed
  | mark :: rest =>
    let span ← source.part inner (mark :: rest)
    if mark = ']' then
      return ⟨target, some span, none, ← source.detailAfterBracket rest⟩
    else
      let (query, after) ← source.field rest
      let span := if span.isEmpty then none else some span
      return ⟨target, span, some query, ← source.detailAfterBracket after⟩

end Source

/-- Reads a single directive. -/
def ofText (text : List Char) : Except DirectiveError Directive := do
  let source : Source := ⟨text, Text.trim text⟩
  if !(source.body.head?.any isStart) then .error .malformed
  else
    match source.body.dropWhile (!endsTarget ·) with
    | [] =>
      match Detail.ofText? text with
      | some detail => return all detail
      | none => return ⟨text, none, none, .full⟩
    | mark :: rest =>
      let target ← source.part source.body (mark :: rest)
      if mark = '=' then return ⟨target, none, none, ← source.detail rest⟩
      else source.bracketed target rest

/-- Whether a directive speaks about an event.  No span is ever open, so those
that ask for a span, or for the value of a field in one, speak about nothing. -/
def appliesTo (directive : Directive) (event : Event) : Bool :=
  directive.target.isPrefixOf event.target.toList && directive.span = none &&
    match directive.field with
    | none => true
    | some query => query.value = none && String.ofList query.name ∈ event.fieldNames

/-- Orders what directives ask for: nothing first, then fields by their names. -/
def compareFields : Option FieldQuery → Option FieldQuery → Ordering
  | none, none => .eq
  | none, some _ => .lt
  | some _, none => .gt
  | some a, some b => compare (String.ofList a.name) (String.ofList b.name)

/-- Orders directives by how specific they are: a longer target is more specific,
and among equal targets a field is. -/
def compareSpecificity (a b : Directive) : Ordering :=
  (compare a.target.length b.target.length).then (compareFields a.field b.field)

end Directive

end ClassLang.Command
