import ClassLang.Token

/-!
# Productions

A production reads a prefix of a token list and returns what it means together
with the tokens that follow.  When it cannot, it says what it expected and which
tokens were left at that point, so that of several failures the one that got
furthest can be reported.

Recursion goes through two combinators only.  `fixed` ties the knot of a
recursive grammar and `whileNext` repeats a step; both count their rounds by the
tokens that are left when they start, which suffices because every round of the
grammar consumes a token.
-/

namespace ClassLang

/-- What a production was looking for. -/
inductive Expected where
  | token (wanted : Token)
  | identifier
  | type
  | expression
deriving DecidableEq

def Expected.text : Expected → String
  | token wanted => "`" ++ wanted.text ++ "`"
  | identifier => "an identifier"
  | type => "a type"
  | expression => "an expression"

/-- A production found something else than `expected` in front of `rest`. -/
structure Failure where
  expected : Expected
  rest : List Token
deriving DecidableEq

/-- The failure that got further, the later one when they are equal. -/
def Failure.furthest (earlier later : Failure) : Failure :=
  if later.rest.length ≤ earlier.rest.length then later else earlier

/-- A production of the grammar with meanings of type `α`. -/
abbrev Production (α : Type) := StateT (List Token) (Except Failure) α

namespace Production

variable {α σ : Type}

/-- Reports that something else was expected here. -/
def fail (expected : Expected) : Production α :=
  fun tokens => .error ⟨expected, tokens⟩

/-- Consumes one given token. -/
def expect (token : Token) : Production Unit
  | [] => .error ⟨.token token, []⟩
  | next :: rest =>
    if next = token then .ok ((), rest) else .error ⟨.token token, next :: rest⟩

def keyword (word : Keyword) : Production Unit := expect (.keyword word)

def symbol (mark : Symbol) : Production Unit := expect (.symbol mark)

/-- The next token, which is not consumed. -/
def peek : Production (Option Token) :=
  fun tokens => .ok (tokens.head?, tokens)

/-- Consumes the next token, whatever it is. -/
def skip : Production Unit :=
  fun tokens => .ok ((), tokens.tail)

/-- Consumes an identifier. -/
def identifier : Production String
  | .ident name :: rest => .ok (name, rest)
  | tokens => .error ⟨.identifier, tokens⟩

/-- Tries the alternatives in order from the same place.  When all of them fail,
the failure that got furthest is reported. -/
def firstOf (first : Production α) : List (Production α) → Production α
  | [], tokens => first tokens
  | second :: more, tokens =>
    match first tokens with
    | .ok result => .ok result
    | .error earlier =>
      match firstOf second more tokens with
      | .ok result => .ok result
      | .error later => .error (earlier.furthest later)

/-- The rounds of `fixed`, one for each token of the first argument. -/
def fixedRounds (body : Production α → Production α) : List Token → Production α
  | [], tokens => body (fail .expression) tokens
  | _ :: rounds, tokens => body (fixedRounds body rounds) tokens

/-- The production that `body` describes in terms of itself. -/
def fixed (body : Production α → Production α) : Production α :=
  fun tokens => fixedRounds body tokens tokens

/-- The rounds of `whileNext`, one for each token of the first argument. -/
def whileNextRounds (more : Token → Bool) (step : σ → Production σ) :
    List Token → σ → Production σ
  | _ :: rounds, state, next :: rest =>
    if more next then
      match step state (next :: rest) with
      | .error failure => .error failure
      | .ok (state, rest) => whileNextRounds more step rounds state rest
    else .ok (state, next :: rest)
  | _, state, tokens => .ok (state, tokens)

/-- Repeats a step as long as there is a next token that satisfies `more`. -/
def whileNext (more : Token → Bool) (step : σ → Production σ) (start : σ) : Production σ :=
  fun tokens => whileNextRounds more step tokens start tokens

/-- The items that follow each other as long as the next token satisfies
`more`. -/
def manyWhile (more : Token → Bool) (item : Production α) : Production (List α) := do
  let items ← whileNext more (fun items => do
    let next ← item
    return next :: items) []
  return items.reverse

/-- A possibly empty list of items, separated by commas, in front of a closing
parenthesis, which is not consumed. -/
def commaSeparated (item : Production α) : Production (List α) := do
  if (← peek) = some (.symbol .closeParen) then
    return []
  else
    let first ← item
    let others ← manyWhile (· = .symbol .comma) do
      symbol .comma
      item
    return first :: others

/-- A possibly empty list of items between parentheses. -/
def parenthesized (item : Production α) : Production (List α) := do
  symbol .openParen
  let items ← commaSeparated item
  symbol .closeParen
  return items

end Production

end ClassLang
