import ClassLang.Text.Quoted
import ClassLang.Token

/-!
# From text to tokens

Scanning cuts the longest lexeme off the front of the text, again and again,
and skips the blanks in between.  A word is a run of letters, digits and
underscores that does not start with a digit; a number is a run of digits; `==`
is preferred to `=`.  The first place where no lexeme starts, or where a number
exceeds the largest 64-bit integer, is reported by its offset in the UTF-8
encoding of the text.
-/

namespace ClassLang

/-- Why a text is not a sequence of tokens. -/
inductive ScanError where
  | unexpectedChar (char : Char) (offset : Nat)
  | integerOutOfBounds (literal : String) (offset : Nat)
deriving DecidableEq

def ScanError.message : ScanError → String
  | unexpectedChar char offset =>
    "unexpected character " ++ Text.quotedChar char ++ " at byte " ++ offset.repr
  | integerOutOfBounds literal offset =>
    "integer literal " ++ literal ++ " at byte " ++ offset.repr ++ " is out of bounds"

namespace Token

/-- The characters that separate tokens.  The vertical tab is not one of them. -/
def isBlank (c : Char) : Bool :=
  c = ' ' || c = '\t' || c = '\n' || c = '\x0c' || c = '\r'

def isWordStart (c : Char) : Bool :=
  c.isAlpha || c = '_'

def isWordChar (c : Char) : Bool :=
  c.isAlphanum || c = '_'

/-- The first lexeme of a text that does not start with a blank, and the text
after it.  A character that starts no longer lexeme stands alone. -/
def cut (c : Char) (rest : List Char) : List Char × List Char :=
  if isWordStart c then (c :: rest.takeWhile isWordChar, rest.dropWhile isWordChar)
  else if c.isDigit then (c :: rest.takeWhile Char.isDigit, rest.dropWhile Char.isDigit)
  else
    match c, rest with
    | '=', '=' :: after => (['=', '='], after)
    | _, _ => ([c], rest)

theorem cut_after_length (c : Char) (rest : List Char) :
    (cut c rest).2.length ≤ rest.length := by
  unfold cut
  split
  · exact (List.dropWhile_sublist _).length_le
  · split
    · exact (List.dropWhile_sublist _).length_le
    · split <;> simp

/-- A word is an identifier unless it is reserved. -/
def ofWord (word : String) : Token :=
  match Keyword.ofText? word with
  | some reserved => keyword reserved
  | none => ident word

/-- The least number that is too large for a literal, two to the power of 63. -/
def integerBound : Nat := 9223372036854775808

/-- The token that a lexeme starting with `c` denotes. -/
def ofLexeme (offset : Nat) (c : Char) (lexeme : List Char) : Except ScanError Token :=
  if isWordStart c then .ok (ofWord (String.ofList lexeme))
  else if c.isDigit then
    let value := Nat.ofDigitChars 10 lexeme 0
    if value < integerBound then .ok (integer (Int64.ofNat value))
    else .error (.integerOutOfBounds (String.ofList lexeme) offset)
  else
    match Symbol.ofText? (String.ofList lexeme) with
    | some mark => .ok (symbol mark)
    | none => .error (.unexpectedChar c offset)

/-- Scans the rest of a text whose first `offset` bytes held the tokens `seen`,
the latest first. -/
def scanFrom (offset : Nat) (seen : List Token) : List Char → Except ScanError (List Token)
  | [] => .ok seen.reverse
  | c :: rest =>
    if isBlank c then scanFrom (offset + 1) seen rest
    else
      match ofLexeme offset c (cut c rest).1 with
      | .error error => .error error
      | .ok token => scanFrom (offset + (cut c rest).1.length) (token :: seen) (cut c rest).2
termination_by text => text.length
decreasing_by
  · simp
  · have := cut_after_length c rest
    simp; omega

/-- The tokens of a source text. -/
def scan (source : String) : Except ScanError (List Token) :=
  scanFrom 0 [] source.toList

end Token

end ClassLang
