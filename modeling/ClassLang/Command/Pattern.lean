/-!
# Patterns

A pattern is a regular expression for the value of a field.  Only its form
matters here: whether it can be used at all.  A pattern that can be read is still
refused if it is nested too deeply, if it names two groups alike, or if it asks for
something that is not available in the mode it stands in.

Patterns start in Unicode mode, without any table of Unicode properties.  So
there are no shorthand classes, no word edges and no ignoring of case in that
mode.  In byte mode all of these are available, but nothing that matches a byte
outside of ASCII.

Patterns belong to the library that the command logs with.  No theorem is about them.
-/

namespace ClassLang.Command

/-- What a pattern can turn on and off for the rest of the group it stands in. -/
inductive Switch where
  | ignoreCase | multiLine | dotMatchesBreak | swapGreed | unicode | carriageReturn | verbose
deriving DecidableEq

def Switch.ofChar? : Char → Option Switch
  | 'i' => some ignoreCase
  | 'm' => some multiLine
  | 's' => some dotMatchesBreak
  | 'U' => some swapGreed
  | 'u' => some unicode
  | 'R' => some carriageReturn
  | 'x' => some verbose
  | _ => none

/-- The switches that are turned on and those that are turned off. -/
structure Switches where
  on : List Switch
  off : List Switch
deriving DecidableEq

namespace Switches

def none : Switches := ⟨[], []⟩

/-- What becomes of a switch that had the given value. -/
def update (switches : Switches) (switch : Switch) (value : Bool) : Bool :=
  if switch ∈ switches.on then true else if switch ∈ switches.off then false else value

end Switches

/-- A character of a pattern that stands for itself. -/
structure PatternChar where
  char : Char
  /-- Whether it is written as a byte with two hexadecimal digits. -/
  asByte : Bool
deriving DecidableEq

/-- A set of characters between brackets. -/
inductive CharSet where
  | nothing
  | char (c : PatternChar)
  | range (first last : PatternChar)
  /-- A class like `[:alpha:]`. -/
  | named (negated : Bool) (name : String)
  /-- A class like `\d`, negated if the letter is a capital. -/
  | shorthand (letter : Char)
  | bracketed (negated : Bool) (set : CharSet)
  | union (sets : List CharSet)
  /-- The intersection or one of the two differences of two sets. -/
  | combined (left right : CharSet)

namespace CharSet

def ofList : List CharSet → CharSet
  | [] => nothing
  | [set] => set
  | sets => union sets

mutual

/-- How deeply sets are nested. -/
def height : CharSet → Nat
  | nothing | char _ | range _ _ | named _ _ | shorthand _ => 0
  | bracketed _ set => set.height + 1
  | union sets => maxHeight sets + 1
  | combined left right => max left.height right.height + 1

def maxHeight : List CharSet → Nat
  | [] => 0
  | set :: rest => max set.height (maxHeight rest)

end

end CharSet

/-- The mode that decides about what is available. -/
structure PatternMode where
  unicode : Bool
  ignoreCase : Bool
deriving DecidableEq

namespace PatternMode

def initial : PatternMode := ⟨true, false⟩

def update (mode : PatternMode) (switches : Switches) : PatternMode :=
  ⟨switches.update .unicode mode.unicode, switches.update .ignoreCase mode.ignoreCase⟩

/-- Whether a class can be used, in byte mode only if it is not negated. -/
def allowsClass (mode : PatternMode) (negated : Bool) : Bool :=
  if mode.unicode then !mode.ignoreCase else !negated

/-- Whether a shorthand class can be used, which is in byte mode only. -/
def allowsShorthand (mode : PatternMode) (letter : Char) : Bool :=
  !mode.unicode && !letter.isUpper

/-- Whether a character can stand outside of brackets.  In byte mode, a byte
must not be a part of a longer character. -/
def allowsChar (mode : PatternMode) (c : PatternChar) : Bool :=
  if mode.unicode then !mode.ignoreCase else !c.asByte || c.char.toNat < 128

/-- Whether a character can stand between brackets. -/
def allowsMember (mode : PatternMode) (c : PatternChar) : Bool :=
  if mode.unicode then !mode.ignoreCase else c.char.toNat < 128

mutual

/-- Whether a set can be used. -/
def allows (mode : PatternMode) : CharSet → Bool
  | .nothing => true
  | .char c => mode.allowsMember c
  | .range first last => mode.allowsMember first && mode.allowsMember last
  | .named negated _ => mode.allowsClass negated
  | .shorthand letter => mode.allowsShorthand letter
  | .bracketed negated set => (mode.unicode || !negated) && mode.allows set
  | .union sets => mode.allowsAll sets
  | .combined left right => mode.allows left && mode.allows right

def allowsAll (mode : PatternMode) : List CharSet → Bool
  | [] => true
  | set :: rest => mode.allows set && mode.allowsAll rest

end

end PatternMode

/-- How a group is opened. -/
inductive GroupKind where
  | numbered
  | named (name : List Char)
  /-- A group that is not captured, with switches for what is inside of it. -/
  | plain (switches : Switches)
deriving DecidableEq

/-- The switches that hold inside of a group. -/
def GroupKind.switches : GroupKind → Switches
  | numbered | named _ => .none
  | plain switches => switches

inductive Pattern where
  | empty
  | switches (switches : Switches)
  | char (c : PatternChar)
  | anyChar
  /-- The start or the end of a line or of the whole text. -/
  | edge
  /-- The start or the end of a word, or the absence of both. -/
  | wordEdge
  | shorthand (letter : Char)
  | bracketed (negated : Bool) (set : CharSet)
  | repeated (pattern : Pattern)
  | group (kind : GroupKind) (pattern : Pattern)
  | sequence (patterns : List Pattern)
  | choice (patterns : List Pattern)

namespace Pattern

def ofList : List Pattern → Pattern
  | [] => empty
  | [pattern] => pattern
  | patterns => sequence patterns

/-- A choice between branches. -/
def ofBranches : List Pattern → Pattern
  | [pattern] => pattern
  | patterns => choice patterns

mutual

/-- How deeply patterns and sets are nested. -/
def height : Pattern → Nat
  | empty | switches _ | char _ | anyChar | edge | wordEdge | shorthand _ => 0
  | bracketed _ set => set.height + 1
  | repeated pattern | group _ pattern => pattern.height + 1
  | sequence patterns | choice patterns => maxHeight patterns + 1

def maxHeight : List Pattern → Nat
  | [] => 0
  | pattern :: rest => max pattern.height (maxHeight rest)

end

mutual

/-- The names of all groups. -/
def groupNames : Pattern → List (List Char)
  | group (.named name) pattern => name :: pattern.groupNames
  | group _ pattern | repeated pattern => pattern.groupNames
  | sequence patterns | choice patterns => allGroupNames patterns
  | _ => []

def allGroupNames : List Pattern → List (List Char)
  | [] => []
  | pattern :: rest => pattern.groupNames ++ allGroupNames rest

end

mutual

/-- The mode after a pattern, if everything in it is available. -/
def modeAfter (mode : PatternMode) : Pattern → Option PatternMode
  | empty | edge => some mode
  | switches changes => some (mode.update changes)
  | char c => if mode.allowsChar c then some mode else none
  | anyChar => if mode.unicode then some mode else none
  | wordEdge => if mode.unicode then none else some mode
  | shorthand letter => if mode.allowsShorthand letter then some mode else none
  | bracketed negated set =>
    if mode.allows (.bracketed negated set) then some mode else none
  | repeated pattern => modeAfter mode pattern
  | group kind pattern => (modeAfter (mode.update kind.switches) pattern).map fun _ => mode
  | sequence patterns | choice patterns => modeAfterAll mode patterns

def modeAfterAll (mode : PatternMode) : List Pattern → Option PatternMode
  | [] => some mode
  | pattern :: rest =>
    match modeAfter mode pattern with
    | some mode => modeAfterAll mode rest
    | none => none

end

/-- How deeply a pattern may be nested. -/
def heightLimit : Nat := 250

/-- Whether a pattern can be used. -/
def isUsable (pattern : Pattern) : Bool :=
  pattern.height ≤ heightLimit && pattern.groupNames.Nodup
    && (modeAfter .initial pattern).isSome

end Pattern

end ClassLang.Command
