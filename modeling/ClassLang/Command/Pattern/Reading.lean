import ClassLang.Command.Pattern
import ClassLang.Text.Alphanumeric
import ClassLang.Text.WhiteSpace

/-!
# Reading patterns

A pattern is read from left to right.  In verbose mode blanks are skipped, and so
is everything from a `#` to the end of the line.

The value of a field ends before the first closing brace, so that nothing that is
written with a pair of braces can be completed: there are no counted repetitions,
and characters are given only by a fixed number of hexadecimal digits.

Like patterns themselves this belongs to the library that the command logs with, and no
theorem is about it.
-/

namespace ClassLang.Command.Pattern

/-- Drops blanks and comments. -/
def skipBlanks (inComment : Bool) : List Char → List Char
  | [] => []
  | c :: rest =>
    if inComment then skipBlanks (c ≠ '\n') rest
    else if Text.isWhiteSpace c then skipBlanks false rest
    else if c = '#' then skipBlanks true rest
    else c :: rest

/-- The rest of a pattern where the next part of it starts. -/
def skip (verbose : Bool) (text : List Char) : List Char :=
  if verbose then skipBlanks false text else text

/-! ## Characters -/

/-- The value of a hexadecimal digit. -/
def hexDigit? (c : Char) : Option Nat :=
  if c.isDigit then some (c.toNat - '0'.toNat)
  else if 'a' ≤ c ∧ c ≤ 'f' then some (c.toNat - 'a'.toNat + 10)
  else if 'A' ≤ c ∧ c ≤ 'F' then some (c.toNat - 'A'.toNat + 10)
  else none

/-- Reads exactly so many more hexadecimal digits of a number. -/
def readHex (verbose : Bool) (value : Nat) : Nat → List Char → Option (Nat × List Char)
  | 0, text => some (value, text)
  | digits + 1, text =>
    match skip verbose text with
    | [] => none
    | c :: rest =>
      match hexDigit? c with
      | some digit => readHex verbose (16 * value + digit) digits rest
      | none => none

/-- Reads a character that is given by its code point. -/
def readCodePoint (verbose : Bool) (digits : Nat) (asByte : Bool) (text : List Char) :
    Option (Pattern × List Char) :=
  match readHex verbose 0 digits text with
  | none => none
  | some (code, rest) =>
    if code.isValidChar then some (char ⟨Char.ofNat code, asByte⟩, rest) else none

/-- Every other character of ASCII than a letter, a digit or an angle bracket can
follow a backslash to stand for itself. -/
def isEscapable (c : Char) : Bool :=
  c.toNat < 128 && !c.isAlphanum && c ≠ '<' && c ≠ '>'

/-- Reads what comes after a backslash.  Classes of Unicode properties are not
available. -/
def readEscape (verbose : Bool) : List Char → Option (Pattern × List Char)
  | [] => none
  | c :: rest =>
    match c with
    | 'x' => readCodePoint verbose 2 true rest
    | 'u' => readCodePoint verbose 4 false rest
    | 'U' => readCodePoint verbose 8 false rest
    | 'd' | 's' | 'w' | 'D' | 'S' | 'W' => some (shorthand c, rest)
    | 'a' => some (char ⟨'\x07', false⟩, rest)
    | 'f' => some (char ⟨'\x0c', false⟩, rest)
    | 't' => some (char ⟨'\t', false⟩, rest)
    | 'n' => some (char ⟨'\n', false⟩, rest)
    | 'r' => some (char ⟨'\r', false⟩, rest)
    | 'v' => some (char ⟨'\x0b', false⟩, rest)
    | 'A' | 'z' => some (edge, rest)
    | 'b' | 'B' | '<' | '>' => some (wordEdge, rest)
    | _ => if isEscapable c then some (char ⟨c, false⟩, rest) else none

/-! ## Sets -/

def classNames : List String :=
  ["alnum", "alpha", "ascii", "blank", "cntrl", "digit", "graph", "lower", "print", "punct",
    "space", "upper", "word", "xdigit"]

/-- Reads a class like `[:alpha:]` after its first bracket.  If it is none, the
bracket opens a set. -/
def readNamedClass : List Char → Option (CharSet × List Char)
  | ':' :: text =>
    let negated := text.head? = some '^'
    let text := if negated then text.tail else text
    let name := String.ofList (text.takeWhile (· ≠ ':'))
    match text.dropWhile (· ≠ ':') with
    | ':' :: ']' :: rest => if name ∈ classNames then some (.named negated name, rest) else none
    | _ => none
  | _ => none

/-- Reads the `^` that negates a set. -/
def readNegation (verbose : Bool) (text : List Char) : Bool × List Char :=
  match skip verbose text with
  | '^' :: rest => (true, rest)
  | rest => (false, rest)

/-- Reads one character, or what a backslash makes of it. -/
def readMember (verbose : Bool) : List Char → Option (Pattern × List Char)
  | [] => none
  | '\\' :: rest => readEscape verbose rest
  | c :: rest => some (char ⟨c, false⟩, rest)

/-- The character that follows a dash.  Of a comment only the `#` is skipped. -/
def peek (verbose : Bool) (text : List Char) : Option Char :=
  if verbose then
    match text.dropWhile Text.isWhiteSpace with
    | '#' :: rest => (rest.dropWhile Text.isWhiteSpace).head?
    | rest => rest.head?
  else text.head?

/-- What can stand alone in a set. -/
def toSet? : Pattern → Option CharSet
  | char c => some (.char c)
  | shorthand letter => some (.shorthand letter)
  | _ => none

/-- A range from one character to another one that does not come before it. -/
def toRange? : Pattern → Pattern → Option CharSet
  | char first, char last =>
    if first.char.toNat ≤ last.char.toNat then some (.range first last) else none
  | _, _ => none

/-- Reads a character, a shorthand class or a range.  A dash before another dash
or before the closing bracket makes no range. -/
def readRange (verbose : Bool) (text : List Char) : Option (CharSet × List Char) := do
  let (first, rest) ← readMember verbose text
  match skip verbose rest with
  | [] => none
  | '-' :: after =>
    let next := peek verbose after
    if next = some ']' ∨ next = some '-' then return (← toSet? first, '-' :: after)
    else
      let (last, rest) ← readMember verbose (skip verbose after)
      return (← toRange? first last, rest)
  | rest => return (← toSet? first, rest)

/-- The union of the members of a set, combined with what stands to the left of
the last operator. -/
def closeSet (left : Option CharSet) (members : List CharSet) : CharSet :=
  match left with
  | none => .ofList members.reverse
  | some set => .combined set (.ofList members.reverse)

/-- Reads a set up to its closing bracket.  While the set is `opening`, dashes
and a first closing bracket are members.  `members` holds what was read since the
last operator, the latest first.  Every step consumes a character, so `fuel` that
exceeds the length of the text is enough. -/
def readSet (verbose : Bool) (fuel : Nat) (opening : Bool) (left : Option CharSet)
    (members : List CharSet) (text : List Char) : Option (CharSet × List Char) :=
  match fuel, skip verbose text with
  | 0, _ | _, [] => none
  | fuel + 1, c :: rest =>
    if opening ∧ c = '-' then
      readSet verbose fuel true left (.char ⟨c, false⟩ :: members) rest
    else if opening ∧ members.isEmpty ∧ c = ']' then
      readSet verbose fuel false left [.char ⟨c, false⟩] rest
    else if c = ']' then some (closeSet left members, rest)
    else if c = '[' then
      match readNamedClass rest with
      | some (named, rest) => readSet verbose fuel false left (named :: members) rest
      | none =>
        let (negated, rest) := readNegation verbose rest
        match readSet verbose fuel true none [] rest with
        | none => none
        | some (set, rest) =>
          readSet verbose fuel false left (.bracketed negated set :: members) rest
    else if (c = '&' ∨ c = '-' ∨ c = '~') ∧ rest.head? = some c then
      readSet verbose fuel false (some (closeSet left members)) [] rest.tail
    else
      match readRange verbose (c :: rest) with
      | none => none
      | some (set, rest) => readSet verbose fuel false left (set :: members) rest

/-! ## Groups -/

/-- The name of a group starts with a letter or `_`. -/
def isGroupName : List Char → Bool
  | [] => false
  | c :: rest =>
    (c = '_' || Text.isAlphabetic c) &&
      rest.all fun c => c = '_' || c = '.' || c = '[' || c = ']' || Text.isAlphanumeric c

/-- Reads letters, each at most once, with those to turn off after a dash. -/
def readSwitches (text : List Char) : Option Switches := do
  let on ← (text.takeWhile (· ≠ '-')).mapM Switch.ofChar?
  let off ← match text.dropWhile (· ≠ '-') with
    | [] => some []
    | ['-'] => none
    | _ :: letters => letters.mapM Switch.ofChar?
  if (on ++ off).Nodup then some ⟨on, off⟩ else none

/-- Reads the name of a group up to the angle bracket that closes it. -/
def readGroupName (text : List Char) : Option (GroupKind × List Char) :=
  let name := text.takeWhile (· ≠ '>')
  match text.dropWhile (· ≠ '>') with
  | [] => none
  | _ :: rest => if isGroupName name then some (.named name, rest) else none

/-- What an opening parenthesis begins. -/
inductive Opening where
  | group (kind : GroupKind)
  /-- Switches for the rest of the group, with nothing inside. -/
  | switches (switches : Switches)

/-- Reads what comes after an opening parenthesis. -/
def readOpening (verbose : Bool) (text : List Char) : Option (Opening × List Char) :=
  match skip verbose text with
  | '?' :: 'P' :: '<' :: rest | '?' :: '<' :: rest =>
    (readGroupName rest).map fun (kind, rest) => (.group kind, rest)
  | '?' :: text =>
    let letters := text.takeWhile fun c => c ≠ ':' && c ≠ ')'
    match text.dropWhile (fun c => c ≠ ':' && c ≠ ')'), readSwitches letters with
    | ':' :: rest, some changes => some (.group (.plain changes), rest)
    | ')' :: rest, some changes =>
      if letters.isEmpty then none else some (.switches changes, rest)
    | _, _ => none
  | text => some (.group .numbered, text)

/-- What a repetition can be put on. -/
def isRepeatable : Pattern → Bool
  | switches _ => false
  | _ => true

/-- Reads one part that is neither a group nor a set nor a repetition. -/
def readPart (verbose : Bool) : List Char → Option (Pattern × List Char)
  | '.' :: rest => some (anyChar, rest)
  | '^' :: rest | '$' :: rest => some (edge, rest)
  | text => readMember verbose text

/-- Reads branches up to the end of the text or the end of the group.  `parts`
holds what was read of the last branch and `branches` the ones before it, both
with the latest first.  Every step consumes a character, so `fuel` that exceeds
the length of the text is enough. -/
def readBranches (fuel : Nat) (verbose : Bool) (branches parts : List Pattern)
    (text : List Char) : Option (Pattern × List Char) :=
  match fuel, skip verbose text with
  | 0, _ => none
  | _, [] => some (ofBranches (ofList parts.reverse :: branches).reverse, [])
  | fuel + 1, c :: rest =>
    if c = ')' then some (ofBranches (ofList parts.reverse :: branches).reverse, c :: rest)
    else if c = '|' then
      readBranches fuel verbose (ofList parts.reverse :: branches) [] rest
    else if c = '(' then
      match readOpening verbose rest with
      | none => none
      | some (.switches changes, rest) =>
        readBranches fuel (changes.update .verbose verbose) branches
          (switches changes :: parts) rest
      | some (.group kind, rest) =>
        match readBranches fuel (kind.switches.update .verbose verbose) [] [] rest with
        | some (body, ')' :: rest) =>
          readBranches fuel verbose branches (group kind body :: parts) rest
        | _ => none
    else if c = '[' then
      let (negated, rest) := readNegation verbose rest
      match readSet verbose fuel true none [] rest with
      | none => none
      | some (set, rest) =>
        readBranches fuel verbose branches (bracketed negated set :: parts) rest
    else if c = '?' ∨ c = '*' ∨ c = '+' then
      match parts with
      | [] => none
      | part :: before =>
        if isRepeatable part then
          let rest := if rest.head? = some '?' then rest.tail else rest
          readBranches fuel verbose branches (repeated part :: before) rest
        else none
    else if c = '\x7b' then none
    else
      match readPart verbose (c :: rest) with
      | none => none
      | some (part, rest) => readBranches fuel verbose branches (part :: parts) rest

/-- Reads a whole pattern. -/
def ofText? (text : List Char) : Option Pattern :=
  match readBranches (text.length + 1) false [] [] text with
  | some (pattern, []) => some pattern
  | _ => none

end ClassLang.Command.Pattern
