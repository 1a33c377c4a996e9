import ClassLang.Text.Printable

/-!
# Quoted characters and texts

Messages show a character between single quotes and a text between double
quotes.  The quote in use and the backslash are escaped, common control
characters have a letter of their own, and every other character that is not
printable is written by its code point.
-/

namespace ClassLang.Text

/-- The code point of a character in lowercase hexadecimal, without padding. -/
def codePointEscape (c : Char) : String :=
  "\\u\x7b" ++ String.ofList (Nat.toDigits 16 c.toNat) ++ "\x7d"

/-- How one character is written inside a quotation closed by `quote`. -/
def escapeChar (quote c : Char) : String :=
  if c = '\x00' then "\\0"
  else if c = '\t' then "\\t"
  else if c = '\r' then "\\r"
  else if c = '\n' then "\\n"
  else if c = '\\' || c = quote then String.ofList ['\\', c]
  else if isPrintable c then String.singleton c
  else codePointEscape c

/-- A character between single quotes. -/
def quotedChar (c : Char) : String :=
  "'" ++ escapeChar '\'' c ++ "'"

/-- A text between double quotes. -/
def quoted (text : String) : String :=
  "\"" ++ String.join (text.toList.map (escapeChar '"')) ++ "\""

end ClassLang.Text
