import ClassLang.Proofs.ProductionExactness

/-!
# Precise productions

A failure of an exact production is sharp when it stands at the first token that
cannot be right.  Everything that was expected there continues what was read to
the beginning of a phrase, and no phrase begins with what was read and the token
that was found instead, whatever comes after it.

The second half is a statement about the grammar alone.  To carry it through a
sequence, the phrase that was read first has to be the only one that the tokens
begin with, and what may follow it must show in the next token.  A precise
production reads phrases that are delimited in this way, is exact and fails only
sharply; the notion is closed under everything that productions are made of.
-/

namespace ClassLang

/-- Whether a token can stand where something is expected. -/
def Expected.admits : Expected → Token → Bool
  | token wanted, next => next = wanted
  | identifier, .ident _ => true
  | identifier, _ => false
  | type, next => next.beginsTy
  | expression, next => next.beginsExp

theorem Expected.exists_admits (expected : Expected) :
    ∃ next, expected.admits next = true := by
  cases expected with
  | token wanted => exact ⟨wanted, by simp [admits]⟩
  | identifier | type | expression => exact ⟨.ident "x", rfl⟩

/-! ## Delimited phrases -/

namespace Phrase

variable {α β σ : Type}

def Viable (phrase : Phrase α) (tokens : List Token) : Prop :=
  ∃ more a, phrase (tokens ++ more) a

/-- The tokens do not begin with a phrase in front of tokens of the given form. -/
def Blocked (phrase : Phrase α) (follow : List Token → Prop) (tokens : List Token) : Prop :=
  ∀ used rest a, tokens = used ++ rest → phrase used a → ¬ follow rest

/-- Tokens begin with at most one phrase in front of tokens of the given form, and
one token shows whether they are of that form. -/
structure Delimited (phrase : Phrase α) (follow : List Token → Prop) : Prop where
  inhabited : ∃ used a, phrase used a
  lookahead : ∀ rest rest', rest.head? = rest'.head? → follow rest → follow rest'
  unambiguous : ∀ left right left' right' a a', left ++ right = left' ++ right' →
    phrase left a → follow right → phrase left' a' → follow right' → left = left' ∧ a = a'

/-- A phrase and then another one, which may depend on the meaning of the first. -/
def Then (first : Phrase α) (second : α → Phrase β) : Phrase β :=
  fun used b => ∃ left right a, used = left ++ right ∧ first left a ∧ second a right b

/-- The second phrase of a sequence may follow the first. -/
def Follows (second : α → Phrase β) (follow' follow : List Token → Prop) : Prop :=
  ∀ a used b rest, second a used b → follow' rest → follow (used ++ rest)

def Return (a : α) : Phrase α :=
  fun used b => used = [] ∧ a = b

def Literal (token : Token) : Phrase Unit :=
  fun used _ => used = [token]

def Identifier : Phrase String :=
  fun used name => used = [.ident name]

theorem Delimited.then {first : Phrase α} {second : α → Phrase β}
    {follow follow' : List Token → Prop} (hfirst : first.Delimited follow)
    (hsecond : ∀ a, (second a).Delimited follow') (hfollows : Follows second follow' follow) :
    (Then first second).Delimited follow' := by
  obtain ⟨left, a, hleft⟩ := hfirst.inhabited
  obtain ⟨right, b, hright⟩ := (hsecond a).inhabited
  refine ⟨⟨left ++ right, b, left, right, a, rfl, hleft, hright⟩, (hsecond a).lookahead, ?_⟩
  intro used rest used' rest' b b' htokens hused hrest hused' hrest'
  obtain ⟨left, right, a, rfl, hleft, hright⟩ := hused
  obtain ⟨left', right', a', rfl, hleft', hright'⟩ := hused'
  rw [List.append_assoc, List.append_assoc] at htokens
  obtain ⟨rfl, rfl⟩ := hfirst.unambiguous _ _ _ _ _ _ htokens hleft
    (hfollows _ _ _ _ hright hrest) hleft' (hfollows _ _ _ _ hright' hrest')
  obtain ⟨rfl, rfl⟩ := (hsecond a).unambiguous _ _ _ _ _ _ (List.append_cancel_left htokens)
    hright hrest hright' hrest'
  exact ⟨rfl, rfl⟩

theorem Delimited.map {phrase : Phrase α} {follow : List Token → Prop}
    (hphrase : phrase.Delimited follow) (f : α → β) :
    Delimited (fun used b => ∃ a, phrase used a ∧ b = f a) follow := by
  obtain ⟨used, a, hused⟩ := hphrase.inhabited
  refine ⟨⟨used, f a, a, hused, rfl⟩, hphrase.lookahead, ?_⟩
  intro left right left' right' b b' htokens hleft hright hleft' hright'
  obtain ⟨a, ha, rfl⟩ := hleft
  obtain ⟨a', ha', rfl⟩ := hleft'
  obtain ⟨rfl, rfl⟩ := hphrase.unambiguous _ _ _ _ _ _ htokens ha hright ha' hright'
  exact ⟨rfl, rfl⟩

theorem follows_literal {token : Token} {tail : α → Unit → Phrase β}
    {follow follow' : List Token → Prop} (hfollow : ∀ rest, follow (token :: rest)) :
    Follows (fun a => Then (Literal token) (tail a)) follow' follow := by
  intro a used b rest hused _
  obtain ⟨left, right, _, rfl, rfl, -⟩ := hused
  exact hfollow _

end Phrase

open Phrase

/-- Reading failed after the given tokens at the first one that cannot be
right. -/
structure Failure.SharpAfter {α : Type} (used : List Token) (phrase : Phrase α)
    (follow : List Token → Prop) (failure : Failure) : Prop where
  viable : ∀ next, failure.expected.admits next = true → phrase.Viable (used ++ [next])
  blocked : ∀ rest, rest.head? = failure.rest.head? → phrase.Blocked follow (used ++ rest)

namespace Failure.SharpAfter

variable {α β : Type} {first : Phrase α} {second : α → Phrase β}
  {follow follow' : List Token → Prop} {failure : Failure} {used : List Token}

theorem of_first (hsharp : failure.SharpAfter used first follow)
    (hsecond : ∀ a, (second a).Delimited follow') (hfollows : Follows second follow' follow) :
    failure.SharpAfter used (Then first second) follow' := by
  refine ⟨?_, ?_⟩
  · intro token htoken
    obtain ⟨more, a, hleft⟩ := hsharp.viable token htoken
    obtain ⟨right, b, hright⟩ := (hsecond a).inhabited
    exact ⟨more ++ right, b, _, right, a, by simp, hleft, hright⟩
  · intro rest hrest _ rest' b hsplit hthen hfollow
    obtain ⟨left, right, a, rfl, hleft, hright⟩ := hthen
    exact hsharp.blocked rest hrest left (right ++ rest') a (by rw [hsplit, List.append_assoc])
      hleft (hfollows a right b rest' hright hfollow)

/-- What was read before a failure in the second part of a sequence is the only
phrase that the tokens begin with, so that nothing else can be made of them. -/
theorem of_second {left : List Token} {a : α} (hfirst : first.Delimited follow)
    (hleft : first left a) (hmiddle : follow (used ++ failure.rest))
    (hsharp : failure.SharpAfter used (second a) follow')
    (hfollows : Follows second follow' follow) :
    failure.SharpAfter (left ++ used) (Then first second) follow' := by
  refine ⟨?_, ?_⟩
  · intro token htoken
    obtain ⟨more, b, hright⟩ := hsharp.viable token htoken
    exact ⟨more, b, left, _, a, by simp, hleft, hright⟩
  · intro rest hrest _ rest' b htokens hthen hfollow
    obtain ⟨left', right, a', rfl, hleft', hright⟩ := hthen
    rw [List.append_assoc, List.append_assoc] at htokens
    have hhead : (used ++ failure.rest).head? = (used ++ rest).head? := by
      rw [List.head?_append, List.head?_append, hrest]
    obtain ⟨rfl, rfl⟩ := hfirst.unambiguous _ _ _ _ _ _ htokens hleft
      (hfirst.lookahead _ _ hhead hmiddle) hleft' (hfollows a' right b rest' hright hfollow)
    exact hsharp.blocked rest hrest right rest' b (List.append_cancel_left htokens) hright
      hfollow

/-- What phrases mean does not matter to where reading them fails. -/
theorem map_iff {f : α → β} :
    failure.SharpAfter used (fun used b => ∃ a, first used a ∧ b = f a) follow ↔
      failure.SharpAfter used first follow := by
  constructor
  · intro hsharp
    refine ⟨?_, ?_⟩
    · intro token htoken
      obtain ⟨more, _, a, hused, -⟩ := hsharp.viable token htoken
      exact ⟨more, a, hused⟩
    · intro rest hrest used rest' a htokens hused
      exact hsharp.blocked rest hrest used rest' (f a) htokens ⟨a, hused, rfl⟩
  · intro hsharp
    refine ⟨?_, ?_⟩
    · intro token htoken
      obtain ⟨more, a, hused⟩ := hsharp.viable token htoken
      exact ⟨more, f a, a, hused, rfl⟩
    · intro rest hrest used rest' b htokens hmapped
      obtain ⟨a, hused, -⟩ := hmapped
      exact hsharp.blocked rest hrest used rest' a htokens hused

/-- A failure in front of everything, where none of the tokens is found that
phrases begin with. -/
theorem of_begins {expected : Expected} {tokens : List Token}
    (hviable : ∀ next, expected.admits next = true → first.Viable [next])
    (hbegins : first.BeginsWith expected.admits)
    (hhead : ∀ token ∈ tokens.head?, expected.admits token = false) :
    Failure.SharpAfter [] first follow ⟨expected, tokens⟩ := by
  refine ⟨hviable, ?_⟩
  intro rest hrest left rest' a htokens hleft _
  obtain ⟨token, tail, rfl, htoken⟩ := hbegins _ _ hleft
  rw [List.nil_append] at htokens
  have hfalse := hhead token (by rw [← hrest, htokens]; rfl)
  rw [htoken] at hfalse
  contradiction

theorem of_literal {token : Token}
    (hsharp : failure.SharpAfter used (Literal token) fun _ => True)
    (hbegins : first.BeginsWith (· = token)) (hfirst : first.Delimited follow) :
    failure.SharpAfter used first follow := by
  refine ⟨?_, ?_⟩
  · intro next hnext
    obtain ⟨more, _, hread⟩ := hsharp.viable next hnext
    obtain ⟨left, a, hleft⟩ := hfirst.inhabited
    obtain ⟨_, tail, rfl, htoken⟩ := hbegins _ _ hleft
    obtain rfl := of_decide_eq_true htoken
    refine ⟨more ++ tail, a, ?_⟩
    rw [← List.append_assoc, hread]
    exact hleft
  · intro rest hrest left rest' a htokens hleft _
    obtain ⟨head, tail, rfl, htoken⟩ := hbegins _ _ hleft
    obtain rfl := of_decide_eq_true htoken
    exact hsharp.blocked rest hrest [head] (tail ++ rest') () htokens rfl trivial

end Failure.SharpAfter

namespace Production

variable {α β σ : Type} {tokens rest : List Token}

/-- On the given tokens, the production is exact. -/
def ExactAt (production : Production α) (phrase : Phrase α) (follow : List Token → Prop)
    (tokens : List Token) : Prop :=
  ∀ a rest, production tokens = .ok (a, rest) ↔
    ∃ used, tokens = used ++ rest ∧ phrase used a ∧ follow rest

/-- On the given tokens, the production is exact and fails sharply. -/
structure PreciseAt (production : Production α) (phrase : Phrase α)
    (follow : List Token → Prop) (tokens : List Token) : Prop where
  exact : ExactAt production phrase follow tokens
  sharp : ∀ failure, production tokens = .error failure →
    ∃ used, tokens = used ++ failure.rest ∧ failure.SharpAfter used phrase follow

/-- On token lists shorter than `bound`, the production reads delimited phrases
and fails sharply. -/
structure Precise (bound : Nat) (production : Production α) (phrase : Phrase α)
    (follow : List Token → Prop) : Prop where
  delimited : phrase.Delimited follow
  reads : ∀ tokens, tokens.length < bound → PreciseAt production phrase follow tokens

theorem Precise.exact {bound : Nat} {production : Production α} {phrase : Phrase α}
    {follow : List Token → Prop} (hprecise : Precise bound production phrase follow) :
    Exact bound production phrase follow :=
  fun tokens hlength => (hprecise.reads tokens hlength).exact

theorem Precise.of_le {bound smaller : Nat} {production : Production α} {phrase : Phrase α}
    {follow : List Token → Prop} (hprecise : Precise bound production phrase follow)
    (hle : smaller ≤ bound) : Precise smaller production phrase follow :=
  ⟨hprecise.delimited, fun tokens hlength => hprecise.reads tokens (by omega)⟩

theorem Precise.congr {bound : Nat} {production : Production α} {phrase phrase' : Phrase α}
    {follow follow' : List Token → Prop} (hprecise : Precise bound production phrase follow)
    (hphrase : ∀ used a, phrase' used a ↔ phrase used a)
    (hfollow : ∀ rest, follow' rest ↔ follow rest) :
    Precise bound production phrase' follow' := by
  obtain rfl : phrase' = phrase := funext fun used => funext fun a => propext (hphrase used a)
  obtain rfl : follow' = follow := funext fun rest => propext (hfollow rest)
  exact hprecise

/-- What an exact production reads is delimited, since the production gives one
answer. -/
theorem Exact.delimited {production : Production α} {phrase : Phrase α}
    {follow : List Token → Prop} (hexact : ∀ bound, Exact bound production phrase follow)
    (hinhabited : ∃ used a, phrase used a)
    (hlookahead : ∀ rest rest', rest.head? = rest'.head? → follow rest → follow rest') :
    phrase.Delimited follow := by
  refine ⟨hinhabited, hlookahead, ?_⟩
  intro left right left' right' a a' htokens hleft hright hleft' hright'
  have hread : production (left ++ right) = .ok (a, right) :=
    (Exact.ok_iff hexact).2 ⟨left, rfl, hleft, hright⟩
  have hread' : production (left ++ right) = .ok (a', right') :=
    (Exact.ok_iff hexact).2 ⟨left', htokens, hleft', hright'⟩
  rw [hread] at hread'
  simp only [Except.ok.injEq, Prod.mk.injEq] at hread'
  obtain ⟨rfl, rfl⟩ := hread'
  exact ⟨List.append_cancel_right htokens, rfl⟩

/-- Where two exact productions give the same answer, the phrases that they read
are the same. -/
theorem Exact.phrase_iff {production production' : Production α} {phrase phrase' : Phrase α}
    {follow follow' : List Token → Prop}
    (hexact : ∀ bound, Exact bound production phrase follow)
    (hexact' : ∀ bound, Exact bound production' phrase' follow')
    (hend : follow []) (hend' : follow' []) {used used' : List Token}
    (hrun : production used = production' used') (a : α) :
    phrase used a ↔ phrase' used' a := by
  have hread : production used = .ok (a, []) ↔ phrase used a := by
    rw [Exact.ok_iff hexact]
    simp [hend]
  have hread' : production' used' = .ok (a, []) ↔ phrase' used' a := by
    rw [Exact.ok_iff hexact']
    simp [hend']
  rw [← hread, ← hread', hrun]

/-- An exact production that was found to be precise for other phrases is so for
its own. -/
theorem Precise.of_exact {bound : Nat} {production : Production α} {phrase phrase' : Phrase α}
    {follow : List Token → Prop} (hprecise : ∀ bound, Precise bound production phrase follow)
    (hexact : ∀ bound, Exact bound production phrase' follow) (hend : follow []) :
    Precise bound production phrase' follow :=
  (hprecise bound).congr
    (fun _ => Exact.phrase_iff hexact (fun bound => (hprecise bound).exact) hend hend rfl)
    (fun _ => Iff.rfl)

theorem bind_error_iff {first : Production α} {next : α → Production β} {failure : Failure} :
    (first >>= next) tokens = .error failure ↔
      first tokens = .error failure ∨
        ∃ a middle, first tokens = .ok (a, middle) ∧ next a middle = .error failure := by
  change (first tokens >>= fun result => next result.1 result.2) = _ ↔ _
  cases first tokens with
  | error earlier =>
      simp [bind, Except.bind]
  | ok result =>
      obtain ⟨a, middle⟩ := result
      simp [bind, Except.bind, and_assoc]

/-! ## Single tokens -/

theorem precise_pure (bound : Nat) (a : α) :
    Precise bound (pure a : Production α) (Return a) fun _ => True := by
  have hexact (bound : Nat) : Exact bound (pure a) (Return a) fun _ => True := by
    intro tokens _ b rest
    rw [pure_ok_iff]
    constructor
    · intro hresult
      obtain ⟨rfl, rfl⟩ := hresult
      exact ⟨[], rfl, ⟨rfl, rfl⟩, trivial⟩
    · intro hresult
      obtain ⟨_, rfl, ⟨rfl, rfl⟩, -⟩ := hresult
      exact ⟨rfl, rfl⟩
  refine ⟨Exact.delimited hexact ⟨[], a, rfl, rfl⟩ (fun _ _ _ _ => trivial), ?_⟩
  intro tokens hlength
  refine ⟨hexact bound tokens hlength, ?_⟩
  intro failure hfailure
  cases hfailure

theorem precise_expect (bound : Nat) (token : Token) :
    Precise bound (expect token) (Literal token) fun _ => True := by
  have hexact (bound : Nat) : Exact bound (expect token) (Literal token) fun _ => True := by
    intro tokens _ done rest
    rw [expect_ok_iff]
    simp [Literal]
  refine ⟨Exact.delimited hexact ⟨[token], (), rfl⟩ (fun _ _ _ _ => trivial), ?_⟩
  intro tokens hlength
  refine ⟨hexact bound tokens hlength, ?_⟩
  intro failure hfailure
  have hfail : failure = ⟨.token token, tokens⟩ ∧
      ∀ next ∈ tokens.head?, Expected.admits (.token token) next = false := by
    cases tokens with
    | nil =>
        cases hfailure
        simp
    | cons next tail =>
        by_cases hnext : next = token
        · simp [expect, hnext] at hfailure
        · simp only [expect, if_neg hnext, Except.error.injEq] at hfailure
          exact ⟨hfailure.symm, by simpa [Expected.admits] using hnext⟩
  obtain ⟨rfl, hhead⟩ := hfail
  refine ⟨[], rfl, .of_begins ?_ ?_ hhead⟩
  · intro next hnext
    obtain rfl : next = token := by simpa [Expected.admits] using hnext
    exact ⟨[], (), rfl⟩
  · intro used _ hused
    exact ⟨token, [], hused, by simp [Expected.admits]⟩

theorem precise_symbol (bound : Nat) (mark : Symbol) :
    Precise bound (symbol mark) (Literal (.symbol mark)) fun _ => True :=
  precise_expect bound (.symbol mark)

theorem precise_keyword (bound : Nat) (word : Keyword) :
    Precise bound (keyword word) (Literal (.keyword word)) fun _ => True :=
  precise_expect bound (.keyword word)

theorem precise_identifier (bound : Nat) :
    Precise bound identifier Identifier fun _ => True := by
  have hexact (bound : Nat) : Exact bound identifier Identifier fun _ => True := by
    intro tokens _ name rest
    rw [identifier_ok_iff]
    simp [Identifier]
  refine ⟨Exact.delimited hexact ⟨[.ident "x"], "x", rfl⟩ (fun _ _ _ _ => trivial), ?_⟩
  intro tokens hlength
  refine ⟨hexact bound tokens hlength, ?_⟩
  intro failure hfailure
  have hfail : failure = ⟨.identifier, tokens⟩ ∧
      ∀ next ∈ tokens.head?, Expected.admits .identifier next = false := by
    unfold identifier at hfailure
    split at hfailure
    next => cases hfailure
    next hother =>
      refine ⟨(Except.error.inj hfailure).symm, ?_⟩
      intro next hnext
      obtain ⟨tail, rfl⟩ := List.head?_eq_some_iff.1 hnext
      cases next with
      | ident name => exact absurd rfl (hother name tail)
      | _ => rfl
  obtain ⟨rfl, hhead⟩ := hfail
  refine ⟨[], rfl, .of_begins ?_ ?_ hhead⟩
  · intro next hnext
    cases next with
    | ident name => exact ⟨[], name, rfl⟩
    | _ => cases hnext
  · intro used name hused
    exact ⟨.ident name, [], hused, rfl⟩

/-! ## Sequences -/

section Sequences

variable {bound : Nat} {first : Production α} {next : α → Production β}
  {firstPhrase : Phrase α} {nextPhrase : α → Phrase β} {follow follow' : List Token → Prop}

theorem ExactAt.bind (hfirst : ExactAt first firstPhrase follow tokens)
    (hnext : ∀ a middle, middle.length ≤ tokens.length → follow middle →
      ExactAt (next a) (nextPhrase a) follow' middle)
    (hfollows : Follows nextPhrase follow' follow) :
    ExactAt (first >>= next) (Then firstPhrase nextPhrase) follow' tokens := by
  intro b rest
  simp only [bind_ok_iff, hfirst _ _]
  constructor
  · intro hresult
    obtain ⟨a, middle, ⟨left, rfl, hleft, hmiddle⟩, hrun⟩ := hresult
    obtain ⟨right, rfl, hright, hrest⟩ := (hnext a middle (by simp) hmiddle b rest).1 hrun
    exact ⟨left ++ right, by simp, ⟨left, right, a, rfl, hleft, hright⟩, hrest⟩
  · intro hresult
    obtain ⟨_, rfl, ⟨left, right, a, rfl, hleft, hright⟩, hrest⟩ := hresult
    have hmiddle : follow (right ++ rest) := hfollows a right b rest hright hrest
    refine ⟨a, right ++ rest, ⟨left, by simp, hleft, hmiddle⟩, ?_⟩
    exact (hnext a _ (by simp) hmiddle b rest).2 ⟨right, rfl, hright, hrest⟩

theorem Exact.bind (hfirst : Exact bound first firstPhrase follow)
    (hnext : ∀ a, Exact bound (next a) (nextPhrase a) follow')
    (hfollows : Follows nextPhrase follow' follow) :
    Exact bound (first >>= next) (Then firstPhrase nextPhrase) follow' := by
  intro tokens hlength
  apply ExactAt.bind (hfirst tokens hlength) _ hfollows
  intro a middle hmiddle _
  exact hnext a middle (by omega)

theorem Exact.then (hfirst : Exact bound first firstPhrase fun _ => True)
    (hnext : ∀ a, Exact bound (next a) (nextPhrase a) follow') :
    Exact bound (first >>= next) (Then firstPhrase nextPhrase) follow' :=
  hfirst.bind hnext fun _ _ _ _ _ _ => trivial

theorem PreciseAt.bind (hfirst : PreciseAt first firstPhrase follow tokens)
    (hdelimited : firstPhrase.Delimited follow)
    (hnext : ∀ a middle, middle.length ≤ tokens.length → follow middle →
      PreciseAt (next a) (nextPhrase a) follow' middle)
    (hnextDelimited : ∀ a, (nextPhrase a).Delimited follow')
    (hfollows : Follows nextPhrase follow' follow) :
    PreciseAt (first >>= next) (Then firstPhrase nextPhrase) follow' tokens := by
  refine ⟨hfirst.exact.bind (fun a middle hle hmiddle => (hnext a middle hle hmiddle).exact)
    hfollows, ?_⟩
  intro failure hfailure
  rcases bind_error_iff.1 hfailure with hfail | ⟨a, middle, hread, hfail⟩
  · obtain ⟨used, htokens, hsharp⟩ := hfirst.sharp failure hfail
    exact ⟨used, htokens, hsharp.of_first hnextDelimited hfollows⟩
  · obtain ⟨left, rfl, hleft, hmiddle⟩ := (hfirst.exact a middle).1 hread
    obtain ⟨used, rfl, hsharp⟩ := (hnext a middle (by simp) hmiddle).sharp failure hfail
    exact ⟨left ++ used, by simp, .of_second hdelimited hleft hmiddle hsharp hfollows⟩

theorem PreciseAt.map (hfirst : PreciseAt first firstPhrase follow tokens) (f : α → β) :
    PreciseAt (do
        let a ← first
        return f a)
      (fun used b => ∃ a, firstPhrase used a ∧ b = f a) follow tokens := by
  refine ⟨?_, ?_⟩
  · intro b rest
    simp only [bind_ok_iff, pure_ok_iff, hfirst.exact _ _]
    constructor
    · intro hresult
      obtain ⟨a, _, ⟨used, rfl, hused, hrest⟩, rfl, rfl⟩ := hresult
      exact ⟨used, rfl, ⟨a, hused, rfl⟩, hrest⟩
    · intro hresult
      obtain ⟨used, rfl, ⟨a, hused, rfl⟩, hrest⟩ := hresult
      exact ⟨a, rest, ⟨used, rfl, hused, hrest⟩, rfl, rfl⟩
  · intro failure hfailure
    rcases bind_error_iff.1 hfailure with hfail | ⟨a, middle, -, hfail⟩
    · obtain ⟨used, htokens, hsharp⟩ := hfirst.sharp failure hfail
      exact ⟨used, htokens, Failure.SharpAfter.map_iff.2 hsharp⟩
    · cases hfail

theorem Precise.bind (hfirst : Precise bound first firstPhrase follow)
    (hnext : ∀ a, Precise bound (next a) (nextPhrase a) follow')
    (hfollows : Follows nextPhrase follow' follow) :
    Precise bound (first >>= next) (Then firstPhrase nextPhrase) follow' := by
  have hnextDelimited a := (hnext a).delimited
  refine ⟨hfirst.delimited.then hnextDelimited hfollows, ?_⟩
  intro tokens hlength
  apply (hfirst.reads tokens hlength).bind hfirst.delimited _ hnextDelimited hfollows
  intro a middle hmiddle _
  exact (hnext a).reads middle (by omega)

theorem Precise.then (hfirst : Precise bound first firstPhrase fun _ => True)
    (hnext : ∀ a, Precise bound (next a) (nextPhrase a) follow') :
    Precise bound (first >>= next) (Then firstPhrase nextPhrase) follow' :=
  hfirst.bind hnext fun _ _ _ _ _ _ => trivial

theorem Precise.map (hfirst : Precise bound first firstPhrase follow) (f : α → β) :
    Precise bound (do
        let a ← first
        return f a)
      (fun used b => ∃ a, firstPhrase used a ∧ b = f a) follow :=
  ⟨hfirst.delimited.map f, fun tokens hlength => (hfirst.reads tokens hlength).map f⟩

theorem precise_after {item : Phrase α} {production : Production α} (mark : Symbol)
    (hitem : Precise bound production item follow) :
    Precise bound (do
        symbol mark
        production)
      (After mark item) follow := by
  apply ((precise_symbol bound mark).then fun _ => hitem).congr _ (fun _ => Iff.rfl)
  intro used a
  constructor
  · intro hafter
    obtain ⟨hused⟩ := hafter
    exact ⟨[.symbol mark], _, (), rfl, rfl, hused⟩
  · intro hthen
    obtain ⟨_, right, _, rfl, rfl, hright⟩ := hthen
    exact .intro hright

end Sequences

/-! ## Loops -/

section Loops

variable {bound : Nat} {more : Token → Bool} {item : Phrase α} {fold : σ → α → σ}
  {follow : List Token → Prop} {step : σ → Production σ}

/-- The next token, if there is one, does not make a loop go on. -/
def Stops (more : Token → Bool) (rest : List Token) : Prop :=
  ∀ token ∈ rest.head?, more token = false

theorem not_stops_of_more {next : Token} (hhead : rest.head? = some next)
    (hnext : more next = true) : ¬ Stops more rest := by
  intro hstops
  have hfalse := hstops next (by rw [hhead]; rfl)
  rw [hnext] at hfalse
  contradiction

structure PreciseLoop (bound : Nat) (more : Token → Bool) (step : σ → Production σ)
    (item : Phrase α) (fold : σ → α → σ) (follow : List Token → Prop) : Prop where
  begins : item.BeginsWith more
  follows : ∀ used a rest, item used a → follow (used ++ rest)
  delimited : item.Delimited follow
  step : ∀ state,
    Precise bound (step state) (fun used next => ∃ a, item used a ∧ next = fold state a) follow

theorem PreciseLoop.exact (hloop : PreciseLoop bound more step item fold follow) :
    ExactLoop bound more step item fold follow :=
  ⟨hloop.begins, hloop.follows, fun state => (hloop.step state).exact⟩

/-- Items up to a place where none begins are the only ones. -/
theorem delimited_many (hbegins : item.BeginsWith more)
    (hfollows : ∀ used a rest, item used a → follow (used ++ rest))
    (hitem : item.Delimited follow) :
    (Many item).Delimited (fun rest => follow rest ∧ Stops more rest) := by
  refine ⟨⟨[], [], .nil⟩, ?_, ?_⟩
  · intro rest rest' hhead hrest
    exact ⟨hitem.lookahead rest rest' hhead hrest.1, by unfold Stops; rw [← hhead]; exact hrest.2⟩
  · intro left right left' right' as as' htokens hmany hright hmany' hright'
    have hends : ∀ {used others right right' : List Token} {a : α}, item used a →
        used ++ others ++ right = [] ++ right' → ¬ Stops more right' := by
      intro used others right right' a hused hsplit
      obtain ⟨token, tail, rfl, htoken⟩ := hbegins _ _ hused
      rw [List.nil_append] at hsplit
      exact not_stops_of_more (by rw [← hsplit]; rfl) htoken
    induction hmany generalizing left' as' with
    | nil =>
        cases hmany' with
        | nil => exact ⟨rfl, rfl⟩
        | cons hused' hmany' => exact absurd hright.2 (hends hused' htokens.symm)
    | @cons first others a as hused hmany ih =>
        cases hmany' with
        | nil => exact absurd hright'.2 (hends hused htokens)
        | @cons first' others' a' as' hused' hmany' =>
            rw [List.append_assoc, List.append_assoc] at htokens
            obtain ⟨rfl, rfl⟩ := hitem.unambiguous _ _ _ _ _ _ htokens hused
              (follow_of_many hfollows hmany hright.1) hused'
              (follow_of_many hfollows hmany' hright'.1)
            obtain ⟨rfl, rfl⟩ := ih _ _ (List.append_cancel_left htokens) hmany'
            exact ⟨rfl, rfl⟩

/-- A failure where a loop goes on is a failure in front of or inside of an item. -/
theorem sharpAfter_many {failure : Failure} {next : Token} {used : List Token}
    (hsharp : failure.SharpAfter used
      (Then item fun a used as => ∃ others, Many item used others ∧ as = a :: others)
      (fun rest => follow rest ∧ Stops more rest))
    (hhead : (used ++ failure.rest).head? = some next) (hnext : more next = true) :
    failure.SharpAfter used (Many item) (fun rest => follow rest ∧ Stops more rest) := by
  refine ⟨?_, ?_⟩
  · intro token htoken
    obtain ⟨tail, as, left, right, a, hsplit, hleft, others, hothers, -⟩ :=
      hsharp.viable token htoken
    refine ⟨tail, a :: others, ?_⟩
    rw [hsplit]
    exact .cons hleft hothers
  · intro rest hrest used' rest' as htokens hmany hfollow
    cases hmany with
    | nil =>
        have hhead' : rest'.head? = some next := by
          rw [← hhead, ← List.nil_append rest', ← htokens, List.head?_append,
            List.head?_append, hrest]
        exact not_stops_of_more hhead' hnext hfollow.2
    | @cons left right a others hleft hothers =>
        exact hsharp.blocked rest hrest _ rest' (a :: others) htokens
          ⟨left, right, a, rfl, hleft, others, hothers, rfl⟩ hfollow

theorem PreciseLoop.sharpAfter_whileNextRounds
    (hloop : PreciseLoop bound more step item fold follow) (rounds tokens : List Token)
    (hrounds : tokens.length ≤ rounds.length) (hlength : tokens.length < bound) (state : σ)
    (failure : Failure)
    (hfailure : whileNextRounds more step rounds state tokens = .error failure) :
    ∃ used, tokens = used ++ failure.rest ∧
      failure.SharpAfter used (Many item) (fun rest => follow rest ∧ Stops more rest) := by
  have hmany := delimited_many hloop.begins hloop.follows hloop.delimited
  have hfollows : Follows
      (fun (a : α) used as => ∃ others, Many item used others ∧ as = a :: others)
      (fun rest => follow rest ∧ Stops more rest) follow := by
    intro a used as rest hused hrest
    obtain ⟨others, hothers, -⟩ := hused
    exact follow_of_many hloop.follows hothers hrest.1
  induction rounds generalizing tokens state with
  | nil =>
      simp [whileNextRounds] at hfailure
  | cons round rounds ih =>
      cases tokens with
      | nil =>
          simp [whileNextRounds] at hfailure
      | cons next tail =>
          by_cases hnext : more next = true
          · simp only [whileNextRounds, hnext, if_true] at hfailure
            cases hstep : step state (next :: tail) with
            | error earlier =>
                rw [hstep] at hfailure
                obtain rfl : earlier = failure := Except.error.inj hfailure
                obtain ⟨used, htokens, hsharp⟩ :=
                  ((hloop.step state).reads _ hlength).sharp earlier hstep
                have hhead : (used ++ earlier.rest).head? = some next := by
                  rw [← htokens]
                  rfl
                refine ⟨used, htokens, sharpAfter_many ?_ hhead hnext⟩
                exact (Failure.SharpAfter.map_iff.1 hsharp).of_first
                  (fun a => hmany.map (a :: ·)) hfollows
            | ok result =>
                obtain ⟨middleState, middle⟩ := result
                rw [hstep] at hfailure
                obtain ⟨first, htokens, ⟨a, hitem, rfl⟩, hmiddle⟩ :=
                  ((hloop.step state).exact _ hlength _ _).1 hstep
                have hshorter := hloop.begins.length_lt hitem middle
                rw [← htokens] at hshorter
                simp only [List.length_cons] at hshorter hrounds hlength
                obtain ⟨used, rfl, hsharp⟩ :=
                  ih middle (by omega) (by omega) (fold state a) hfailure
                rw [← List.append_assoc] at htokens
                have hhead : (first ++ used ++ failure.rest).head? = some next := by
                  rw [← htokens]
                  rfl
                refine ⟨first ++ used, htokens, sharpAfter_many ?_ hhead hnext⟩
                exact .of_second hloop.delimited hitem hmiddle
                  (Failure.SharpAfter.map_iff.2 hsharp) hfollows
          · simp [whileNextRounds, hnext] at hfailure

theorem PreciseLoop.preciseAt_whileNext (hloop : PreciseLoop bound more step item fold follow)
    (hlength : tokens.length < bound) (hstart : follow tokens) (state : σ) :
    PreciseAt (whileNext more step state)
      (fun used result => ∃ as, Many item used as ∧ result = as.foldl fold state)
      (fun rest => follow rest ∧ Stops more rest) tokens := by
  refine ⟨?_, ?_⟩
  · intro result rest
    rw [hloop.exact.whileNext_ok_iff hlength hstart]
    constructor
    · intro hrepeats
      obtain ⟨used, as, htokens, hmany, hresult, hrest⟩ := hrepeats
      exact ⟨used, htokens, ⟨as, hmany, hresult⟩, hrest⟩
    · intro hresult
      obtain ⟨used, htokens, ⟨as, hmany, hresult⟩, hrest⟩ := hresult
      exact ⟨used, as, htokens, hmany, hresult, hrest⟩
  · intro failure hfailure
    obtain ⟨used, htokens, hsharp⟩ := hloop.sharpAfter_whileNextRounds tokens tokens
      (Nat.le_refl _) hlength state failure hfailure
    exact ⟨used, htokens, Failure.SharpAfter.map_iff.2 hsharp⟩

theorem PreciseLoop.precise_foldedLeft {base : Production σ} {basePhrase : Phrase σ}
    (hloop : PreciseLoop bound more step item fold follow)
    (hbase : Precise bound base basePhrase follow) :
    Precise bound (do
        let start ← base
        whileNext more step start)
      (FoldedLeft basePhrase item fold) (fun rest => follow rest ∧ Stops more rest) := by
  have hmany := delimited_many hloop.begins hloop.follows hloop.delimited
  have hfollows : Follows
      (fun (start : σ) used result => ∃ as, Many item used as ∧ result = as.foldl fold start)
      (fun rest => follow rest ∧ Stops more rest) follow := by
    intro start used result rest hused hrest
    obtain ⟨as, has, -⟩ := hused
    exact follow_of_many hloop.follows has hrest.1
  have hdelimited (start : σ) := hmany.map fun as => as.foldl fold start
  have hthen : Precise bound (base >>= whileNext more step)
      (Then basePhrase fun start used result =>
        ∃ as, Many item used as ∧ result = as.foldl fold start)
      (fun rest => follow rest ∧ Stops more rest) := by
    refine ⟨hbase.delimited.then hdelimited hfollows, ?_⟩
    intro tokens hlength
    apply (hbase.reads tokens hlength).bind hbase.delimited _ hdelimited hfollows
    intro start middle hle hmiddle
    exact hloop.preciseAt_whileNext (by omega) hmiddle start
  apply hthen.congr _ (fun _ => Iff.rfl)
  intro used result
  constructor
  · intro hfolded
    obtain ⟨first, others, start, as, rfl, hfirst, hothers, rfl⟩ := hfolded
    exact ⟨first, others, start, rfl, hfirst, as, hothers, rfl⟩
  · intro hthen
    obtain ⟨first, others, start, rfl, hfirst, as, hothers, rfl⟩ := hthen
    exact ⟨first, others, start, as, rfl, hfirst, hothers, rfl⟩

theorem preciseAt_manyWhile {production : Production α} (hbegins : item.BeginsWith more)
    (hfollows : ∀ used a rest, item used a → follow (used ++ rest))
    (hitem : Precise bound production item follow) (hlength : tokens.length < bound)
    (hstart : follow tokens) :
    PreciseAt (manyWhile more production) (Many item)
      (fun rest => follow rest ∧ Stops more rest) tokens := by
  have hloop : PreciseLoop bound more
      (fun items => do
        let next ← production
        return next :: items)
      item (fun items next => next :: items) follow :=
    ⟨hbegins, hfollows, hitem.delimited, fun items => hitem.map (· :: items)⟩
  have hreversed := (hloop.preciseAt_whileNext hlength hstart []).map List.reverse
  refine ⟨fun as rest => manyWhile_ok_iff hbegins hfollows hitem.exact hlength hstart, ?_⟩
  intro failure hfailure
  obtain ⟨used, htokens, hsharp⟩ := hreversed.sharp failure hfailure
  exact ⟨used, htokens,
    Failure.SharpAfter.map_iff.1 (Failure.SharpAfter.map_iff.1 hsharp)⟩

/-- Items that may be followed by anything end where no further item begins. -/
theorem precise_manyWhile {production : Production α} (hbegins : item.BeginsWith more)
    (hitem : Precise bound production item fun _ => True) :
    Precise bound (manyWhile more production) (Many item) (Stops more) := by
  have hfollows : ∀ used a rest, item used a → (fun _ : List Token => True) (used ++ rest) :=
    fun _ _ _ _ => trivial
  have hmany : Precise bound (manyWhile more production) (Many item)
      (fun rest => True ∧ Stops more rest) :=
    ⟨delimited_many hbegins hfollows hitem.delimited, fun tokens hlength =>
      preciseAt_manyWhile hbegins hfollows hitem hlength trivial⟩
  exact hmany.congr (fun _ _ => Iff.rfl) (fun rest => by rw [true_and])

end Loops

/-! ## Lists in parentheses -/

section Parentheses

variable {bound : Nat} {item : Phrase α} {production : Production α}
  {follow : List Token → Prop}

/-- `item (',' item)*` -/
def CommaList (item : Phrase α) : Phrase (List α) :=
  Then item fun a used as => ∃ others, Many (After .comma item) used others ∧ as = a :: others

def commaList (item : Production α) : Production (List α) := do
  let first ← item
  let others ← manyWhile (· = .symbol .comma) do
    symbol .comma
    item
  return first :: others

theorem commaSeparated_eq_commaList (hhead : tokens.head? ≠ some (.symbol .closeParen)) :
    commaSeparated production tokens = commaList production tokens := by
  unfold commaSeparated
  rw [peek_bind_apply, if_neg hhead]
  rfl

theorem precise_commaList (hcomma : ∀ rest, follow (.symbol .comma :: rest))
    (hitem : Precise bound production item follow) :
    Precise bound (commaList production) (CommaList item)
      (fun rest => follow rest ∧ Stops (· = .symbol .comma) rest) := by
  have hafter := precise_after .comma hitem
  have hfollows : ∀ used a rest, After .comma item used a → follow (used ++ rest) := by
    intro used a rest hused
    obtain ⟨hused⟩ := hused
    exact hcomma _
  have hdelimited (a : α) :=
    (delimited_many (beginsWith_after .comma) hfollows hafter.delimited).map (a :: ·)
  have hothers : Follows
      (fun (a : α) used as => ∃ others, Many (After .comma item) used others ∧ as = a :: others)
      (fun rest => follow rest ∧ Stops (· = .symbol .comma) rest) follow := by
    intro a used as rest hused hrest
    obtain ⟨others, hmany, -⟩ := hused
    exact follow_of_many hfollows hmany hrest.1
  refine ⟨hitem.delimited.then hdelimited hothers, ?_⟩
  intro tokens hlength
  apply (hitem.reads tokens hlength).bind hitem.delimited _ hdelimited hothers
  intro a middle hle hmiddle
  exact (preciseAt_manyWhile (beginsWith_after .comma) hfollows hafter (by omega)
    hmiddle).map (a :: ·)

/-- What follows the opening parenthesis of a list that is not empty. -/
abbrev ClosedList (item : Phrase α) : Phrase (List α) :=
  Then (CommaList item) fun as => Then (Literal (.symbol .closeParen)) fun _ => Return as

theorem parenthesized_of_closedList {tail : List Token} {as : List α}
    (hlist : ClosedList item tail as) : Parenthesized item (.symbol .openParen :: tail) as := by
  obtain ⟨_, _, _, rfl, ⟨first, more, a, rfl, hfirst, others, hmore, rfl⟩, _, _, _, rfl, rfl,
    rfl, rfl⟩ := hlist
  exact .cons hfirst hmore

theorem closedList_of_parenthesized {tail : List Token} {as : List α}
    (hhead : tail.head? ≠ some (.symbol .closeParen))
    (hitems : Parenthesized item (.symbol .openParen :: tail) as) : ClosedList item tail as := by
  generalize htokens : Token.symbol .openParen :: tail = tokens at hitems
  cases hitems with
  | nil =>
      rw [List.cons.injEq] at htokens
      rw [htokens.2] at hhead
      exact absurd rfl hhead
  | @cons first more a others hfirst hmore =>
      rw [List.cons_append, List.cons_append, List.cons.injEq] at htokens
      exact ⟨first ++ more, [.symbol .closeParen], a :: others, htokens.2,
        ⟨first, more, a, rfl, hfirst, others, hmore, rfl⟩, _, [], (), rfl, rfl, rfl, rfl⟩

theorem beginsWith_parenthesized :
    (Parenthesized item).BeginsWith (· = .symbol .openParen) := by
  intro used as hitems
  cases hitems <;> exact ⟨_, _, rfl, by simp⟩

theorem sharpAfter_parenthesized {failure : Failure} {used : List Token}
    (hhead : (used ++ failure.rest).head? ≠ some (.symbol .closeParen))
    (hsharp : failure.SharpAfter used (ClosedList item) fun _ => True) :
    failure.SharpAfter (.symbol .openParen :: used) (Parenthesized item) fun _ => True := by
  refine ⟨?_, ?_⟩
  · intro token htoken
    obtain ⟨more, as, hitems⟩ := hsharp.viable token htoken
    exact ⟨more, as, parenthesized_of_closedList hitems⟩
  · intro rest hrest left rest' as htokens hitems hfollow
    obtain ⟨_, tail, rfl, htoken⟩ := beginsWith_parenthesized _ _ hitems
    obtain rfl := of_decide_eq_true htoken
    have hsplit : used ++ rest = tail ++ rest' := List.tail_eq_of_cons_eq htokens
    refine hsharp.blocked rest hrest tail rest' as hsplit ?_ hfollow
    refine closedList_of_parenthesized ?_ hitems
    intro hclose
    apply hhead
    rw [List.head?_append, ← hrest, ← List.head?_append, hsplit, List.head?_append, hclose]
    rfl

theorem precise_parenthesized (hdelimited : (Parenthesized item).Delimited fun _ => True)
    (hbegins : item.BeginsWith (· ≠ .symbol .closeParen))
    (hcomma : ∀ rest, follow (.symbol .comma :: rest))
    (hclose : ∀ rest, follow (.symbol .closeParen :: rest))
    (hitem : Precise bound production item follow) :
    Precise (bound + 1) (parenthesized production) (Parenthesized item) fun _ => True := by
  have hlist : Precise bound (do
      let items ← commaList production
      symbol .closeParen
      return items) (ClosedList item) fun _ => True := by
    apply (precise_commaList hcomma hitem).bind
      fun as => (precise_symbol bound .closeParen).then fun _ => precise_pure bound as
    exact follows_literal fun rest => ⟨hclose rest, by simp [Stops]⟩
  refine ⟨hdelimited, ?_⟩
  intro tokens hlength
  refine ⟨exact_parenthesized hbegins hcomma hclose hitem.exact tokens hlength, ?_⟩
  intro failure hfailure
  rcases bind_error_iff.1 hfailure with hfail | ⟨_, tail, hread, hfail⟩
  · obtain ⟨used, htokens, hsharp⟩ :=
      ((precise_symbol (bound + 1) .openParen).reads tokens hlength).sharp failure hfail
    exact ⟨used, htokens, hsharp.of_literal beginsWith_parenthesized hdelimited⟩
  · obtain rfl := symbol_ok_iff.1 hread
    by_cases hhead : tail.head? = some (.symbol .closeParen)
    · obtain ⟨rest, rfl⟩ := List.head?_eq_some_iff.1 hhead
      have hnil : parenthesized production (.symbol .openParen :: .symbol .closeParen :: rest) =
          .ok ([], rest) := rfl
      rw [hnil] at hfailure
      cases hfailure
    · have hfailList : (do
          let items ← commaList production
          symbol .closeParen
          return items) tail = .error failure := by
        change (commaList production tail >>= _) = _
        rw [← commaSeparated_eq_commaList hhead]
        exact hfail
      obtain ⟨used, rfl, hsharp⟩ :=
        (hlist.reads tail (by simpa using hlength)).sharp failure hfailList
      exact ⟨.symbol .openParen :: used, rfl, sharpAfter_parenthesized hhead hsharp⟩

end Parentheses

/-! ## Choices -/

section Choices

variable {bound : Nat} {phrase tailPhrase : Phrase α} {follow : List Token → Prop}

/-- The next token decides which branch of a production is taken.  That the branch
reads what the whole production reads after that token is a consequence of both
being exact. -/
theorem preciseAt_of_branch {level level' branch branch' : Production α} {head : Token}
    {tail : List Token} (hexact : ∀ bound, Exact bound level' phrase follow)
    (hbranchExact : ∀ bound, Exact bound branch' tailPhrase follow) (hend : follow [])
    (hrun' : ∀ tail, level' (head :: tail) = branch' tail) (hempty : ∀ a, ¬ phrase [] a)
    (hrun : level (head :: tail) = branch tail)
    (hbranch : PreciseAt branch tailPhrase follow tail) :
    PreciseAt level phrase follow (head :: tail) := by
  have hphrase (tail : List Token) (a : α) : phrase (head :: tail) a ↔ tailPhrase tail a :=
    Exact.phrase_iff hexact hbranchExact hend hend (hrun' tail) a
  have hsplit {tail used rest : List Token} {a : α} (htokens : head :: tail = used ++ rest)
      (hused : phrase used a) : ∃ left, used = head :: left ∧ tail = left ++ rest := by
    cases used with
    | nil => exact absurd hused (hempty a)
    | cons token left =>
        rw [List.cons_append, List.cons.injEq] at htokens
        exact ⟨left, by rw [htokens.1], htokens.2⟩
  refine ⟨?_, ?_⟩
  · intro a rest
    rw [hrun, hbranch.exact a rest]
    constructor
    · intro hresult
      obtain ⟨used, rfl, hused, hrest⟩ := hresult
      exact ⟨head :: used, rfl, (hphrase used a).2 hused, hrest⟩
    · intro hresult
      obtain ⟨used, htokens, hused, hrest⟩ := hresult
      obtain ⟨left, rfl, rfl⟩ := hsplit htokens hused
      exact ⟨left, rfl, (hphrase left a).1 hused, hrest⟩
  · intro failure hfailure
    rw [hrun] at hfailure
    obtain ⟨used, htail, hsharp⟩ := hbranch.sharp failure hfailure
    refine ⟨head :: used, by rw [htail]; rfl, ?_, ?_⟩
    · intro token htoken
      obtain ⟨more, a, hused⟩ := hsharp.viable token htoken
      exact ⟨more, a, (hphrase _ a).2 hused⟩
    · intro rest hrest used' rest' a htokens hused hfollow
      obtain ⟨left, rfl, hleft⟩ := hsplit htokens hused
      exact hsharp.blocked rest hrest left rest' a hleft ((hphrase left a).1 hused) hfollow

/-- What a failure blocks stays blocked further on. -/
theorem blocked_of_further {failure : Failure} {used used' rest' : List Token}
    (hsharp : failure.SharpAfter used phrase follow)
    (hsplit : used ++ failure.rest = used' ++ rest') (hle : used.length ≤ used'.length)
    (rest : List Token) (hrest : rest.head? = rest'.head?) :
    phrase.Blocked follow (used' ++ rest) := by
  rcases List.append_eq_append_iff.1 hsplit with ⟨middle, rfl, hmiddle⟩ | ⟨middle, rfl, rfl⟩
  · rw [List.append_assoc]
    apply hsharp.blocked
    rw [hmiddle, List.head?_append, List.head?_append, hrest]
  · obtain rfl : middle = [] := by
      rw [List.length_append] at hle
      exact List.eq_nil_of_length_eq_zero (by omega)
    rw [List.append_nil] at hsharp
    exact hsharp.blocked rest hrest

/-- Of two failures the one that got further is sharp for both kinds of phrase. -/
theorem sharpAfter_furthest {first second : Phrase α} {earlier later : Failure}
    (hearlier : ∃ used, tokens = used ++ earlier.rest ∧ earlier.SharpAfter used first follow)
    (hlater : ∃ used, tokens = used ++ later.rest ∧ later.SharpAfter used second follow) :
    ∃ used, tokens = used ++ (earlier.furthest later).rest ∧
      (earlier.furthest later).SharpAfter used (fun used a => first used a ∨ second used a)
        follow := by
  obtain ⟨used, htokens, hfirst⟩ := hearlier
  obtain ⟨used', htokens', hsecond⟩ := hlater
  have hlength := congrArg List.length htokens
  have hlength' := congrArg List.length htokens'
  rw [List.length_append] at hlength hlength'
  have hsplit : used ++ earlier.rest = used' ++ later.rest := by rw [← htokens, htokens']
  unfold Failure.furthest
  split
  next hle =>
    refine ⟨used', htokens', ?_, ?_⟩
    · intro token htoken
      obtain ⟨more, a, hused⟩ := hsecond.viable token htoken
      exact ⟨more, a, Or.inr hused⟩
    · intro rest hrest left rest' a hsplit' hleft
      rcases hleft with hleft | hleft
      · exact blocked_of_further hfirst hsplit (by omega) rest hrest left rest' a hsplit' hleft
      · exact hsecond.blocked rest hrest left rest' a hsplit' hleft
  next hgt =>
    refine ⟨used, htokens, ?_, ?_⟩
    · intro token htoken
      obtain ⟨more, a, hused⟩ := hfirst.viable token htoken
      exact ⟨more, a, Or.inl hused⟩
    · intro rest hrest left rest' a hsplit' hleft
      rcases hleft with hleft | hleft
      · exact hfirst.blocked rest hrest left rest' a hsplit' hleft
      · exact blocked_of_further hsecond hsplit.symm (by omega) rest hrest left rest' a hsplit'
          hleft

theorem sharp_firstOf {first second : Production α} {others : List (Production α)}
    {firstPhrase secondPhrase : Phrase α}
    (hfirst : ∀ failure, first tokens = .error failure →
      ∃ used, tokens = used ++ failure.rest ∧ failure.SharpAfter used firstPhrase follow)
    (hsecond : ∀ failure, firstOf second others tokens = .error failure →
      ∃ used, tokens = used ++ failure.rest ∧ failure.SharpAfter used secondPhrase follow)
    (failure : Failure) (hfailure : firstOf first (second :: others) tokens = .error failure) :
    ∃ used, tokens = used ++ failure.rest ∧
      failure.SharpAfter used (fun used a => firstPhrase used a ∨ secondPhrase used a)
        follow := by
  rw [firstOf] at hfailure
  cases hread : first tokens with
  | ok result =>
      rw [hread] at hfailure
      cases hfailure
  | error earlier =>
      rw [hread] at hfailure
      cases hread' : firstOf second others tokens with
      | ok result =>
          rw [hread'] at hfailure
          cases hfailure
      | error later =>
          rw [hread'] at hfailure
          obtain rfl : earlier.furthest later = failure := Except.error.inj hfailure
          exact sharpAfter_furthest (hfirst earlier hread) (hsecond later hread')

end Choices

/-! ## Recursion -/

theorem precise_fixed {body : Production α → Production α} {phrase : Phrase α}
    {follow : List Token → Prop} (hdelimited : phrase.Delimited follow)
    (hbody : ∀ bound production, Precise bound production phrase follow →
      Precise (bound + 1) (body production) phrase follow)
    (bound : Nat) : Precise bound (fixed body) phrase follow := by
  have hrounds (rounds : List Token) :
      Precise (rounds.length + 1) (fixedRounds body rounds) phrase follow := by
    induction rounds with
    | nil =>
        apply hbody 0 (fail .expression)
        exact ⟨hdelimited, fun tokens hlength => by omega⟩
    | cons token rounds ih =>
        exact hbody (rounds.length + 1) (fixedRounds body rounds) ih
  refine ⟨hdelimited, fun tokens _ => ?_⟩
  obtain ⟨hexact, hsharp⟩ := (hrounds tokens).reads tokens (Nat.lt_succ_self _)
  exact ⟨hexact, hsharp⟩

end Production

end ClassLang
