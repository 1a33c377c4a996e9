import ClassLang.Grammar.Production
import ClassLang.Proofs.GrammarRules

/-!
# Exact productions

A production is exact for a kind of phrase when it returns precisely the meanings
that some initial part of the tokens derives, provided that what follows is of a
given form.  The form of what follows is what makes greedy reading right: an
expression is read exactly up to a place where nothing continues it.

Exactness is stated for token lists below a given length.  Nested phrases come
after a token of their own, so one more round of a recursive production is exact
for token lists that are longer by one.
-/

namespace ClassLang.Production

open Phrase

variable {α β σ : Type} {tokens rest : List Token}

section Results

variable {a : α}

theorem bind_ok_iff {p : Production α} {f : α → Production β} {b : β} :
    (p >>= f) tokens = .ok (b, rest) ↔
      ∃ a middle, p tokens = .ok (a, middle) ∧ f a middle = .ok (b, rest) := by
  change (p tokens >>= fun result => f result.1 result.2) = _ ↔ _
  cases p tokens with
  | error failure =>
      simp [bind, Except.bind]
  | ok result =>
      obtain ⟨a, middle⟩ := result
      simp [bind, Except.bind, and_assoc]

theorem pure_ok_iff {b : α} :
    (pure a : Production α) tokens = .ok (b, rest) ↔ a = b ∧ tokens = rest := by
  change Except.ok (a, tokens) = _ ↔ _
  simp

theorem fail_ok_iff {expected : Expected} :
    (fail expected : Production α) tokens = .ok (a, rest) ↔ False := by
  simp [fail]

theorem expect_ok_iff {token : Token} {done : Unit} :
    expect token tokens = .ok (done, rest) ↔ tokens = token :: rest := by
  cases tokens with
  | nil =>
      simp [expect]
  | cons next tail =>
      by_cases hnext : next = token
      · simp [expect, hnext]
      · simp [expect, hnext]

theorem symbol_ok_iff {mark : Symbol} {done : Unit} :
    symbol mark tokens = .ok (done, rest) ↔ tokens = .symbol mark :: rest :=
  expect_ok_iff

theorem keyword_ok_iff {word : Keyword} {done : Unit} :
    keyword word tokens = .ok (done, rest) ↔ tokens = .keyword word :: rest :=
  expect_ok_iff

/-- What follows a look at the next token. -/
theorem peek_bind_apply {f : Option Token → Production α} :
    (peek >>= f) tokens = f tokens.head? tokens :=
  rfl

theorem skip_bind_apply {next : Token} {p : Production α} :
    (skip >>= fun _ => p) (next :: tokens) = p tokens :=
  rfl

theorem identifier_ok_iff {name : String} :
    identifier tokens = .ok (name, rest) ↔ tokens = .ident name :: rest := by
  unfold identifier
  split
  · simp
  next hother =>
      simp only [reduceCtorEq, false_iff]
      intro htokens
      exact hother name rest htokens

end Results

/-- An alternative is taken only where the ones before it fail. -/
theorem firstOf_ok_iff {first second : Production α} {others : List (Production α)} {a : α} :
    firstOf first (second :: others) tokens = .ok (a, rest) ↔
      first tokens = .ok (a, rest) ∨
        (∀ result, first tokens ≠ .ok result) ∧
          firstOf second others tokens = .ok (a, rest) := by
  rw [firstOf]
  cases first tokens with
  | ok result =>
      simp
  | error earlier =>
      cases firstOf second others tokens with
      | ok result =>
          simp
      | error later =>
          simp

/-- On token lists shorter than `bound`, the production reads the phrases of the
given kind that are followed by tokens of the given form, and nothing else. -/
def Exact (bound : Nat) (production : Production α) (phrase : Phrase α)
    (follow : List Token → Prop) : Prop :=
  ∀ tokens, tokens.length < bound → ∀ a rest,
    production tokens = .ok (a, rest) ↔
      ∃ used, tokens = used ++ rest ∧ phrase used a ∧ follow rest

theorem Exact.ok_iff {production : Production α} {phrase : Phrase α}
    {follow : List Token → Prop} (hexact : ∀ bound, Exact bound production phrase follow)
    {a : α} :
    production tokens = .ok (a, rest) ↔
      ∃ used, tokens = used ++ rest ∧ phrase used a ∧ follow rest :=
  hexact (tokens.length + 1) tokens (Nat.lt_succ_self _) a rest

theorem Exact.of_le {bound smaller : Nat} {production : Production α} {phrase : Phrase α}
    {follow : List Token → Prop} (hexact : Exact bound production phrase follow)
    (hle : smaller ≤ bound) : Exact smaller production phrase follow := by
  intro tokens hlength
  exact hexact tokens (by omega)

theorem Exact.congr {bound : Nat} {production : Production α} {phrase phrase' : Phrase α}
    {follow follow' : List Token → Prop} (hexact : Exact bound production phrase follow)
    (hphrase : ∀ used a, phrase' used a ↔ phrase used a)
    (hfollow : ∀ rest, follow' rest ↔ follow rest) :
    Exact bound production phrase' follow' := by
  intro tokens hlength a rest
  simp only [hexact tokens hlength, hphrase, hfollow]

/-- A function of what an exact production returns. -/
theorem Exact.map {bound : Nat} {production : Production α} {phrase : Phrase α}
    {follow : List Token → Prop} (hexact : Exact bound production phrase follow)
    (f : α → β) :
    Exact bound (do
        let a ← production
        return f a)
      (fun used b => ∃ a, phrase used a ∧ b = f a) follow := by
  intro tokens hlength b rest
  simp only [bind_ok_iff, pure_ok_iff, hexact tokens hlength]
  constructor
  · intro hresult
    obtain ⟨a, middle, ⟨used, rfl, hused, hrest⟩, rfl, rfl⟩ := hresult
    exact ⟨used, rfl, ⟨a, hused, rfl⟩, hrest⟩
  · intro hresult
    obtain ⟨used, rfl, ⟨a, hused, rfl⟩, hrest⟩ := hresult
    exact ⟨a, rest, ⟨used, rfl, hused, hrest⟩, rfl, rfl⟩

theorem exact_fixedRounds {body : Production α → Production α} {phrase : Phrase α}
    {follow : List Token → Prop}
    (hbody : ∀ bound production, Exact bound production phrase follow →
      Exact (bound + 1) (body production) phrase follow)
    (rounds : List Token) :
    Exact (rounds.length + 1) (fixedRounds body rounds) phrase follow := by
  induction rounds with
  | nil =>
      apply hbody 0 (fail .expression)
      intro tokens hlength
      omega
  | cons token rounds ih =>
      exact hbody (rounds.length + 1) (fixedRounds body rounds) ih

theorem exact_fixed {body : Production α → Production α} {phrase : Phrase α}
    {follow : List Token → Prop}
    (hbody : ∀ bound production, Exact bound production phrase follow →
      Exact (bound + 1) (body production) phrase follow)
    (bound : Nat) : Exact bound (fixed body) phrase follow := by
  intro tokens hlength
  exact exact_fixedRounds hbody tokens tokens (by omega)

section Loops

variable {bound : Nat} {more : Token → Bool} {item : Phrase α} {fold : σ → α → σ}
  {follow : List Token → Prop} {state result : σ} {step : σ → Production σ}

theorem stops_before_iff {wanted : Token} :
    (∀ token ∈ rest.head?, decide (token = wanted) = false) ↔ rest.head? ≠ some wanted := by
  cases rest with
  | nil =>
      simp
  | cons next tail =>
      simp

/-- Every step of a loop reads one item.  The loop goes on where an item begins,
and an item may be followed by another one. -/
structure ExactLoop (bound : Nat) (more : Token → Bool) (step : σ → Production σ)
    (item : Phrase α) (fold : σ → α → σ) (follow : List Token → Prop) : Prop where
  begins : item.BeginsWith more
  follows : ∀ used a rest, item used a → follow (used ++ rest)
  step : ∀ state,
    Exact bound (step state) (fun used next => ∃ a, item used a ∧ next = fold state a) follow

theorem follow_of_many {used : List Token} {as : List α}
    (hfollows : ∀ used a rest, item used a → follow (used ++ rest))
    (hmany : Many item used as) (hrest : follow rest) : follow (used ++ rest) := by
  cases hmany with
  | nil =>
      exact hrest
  | cons hfirst hmore =>
      rw [List.append_assoc]
      exact hfollows _ _ _ hfirst

/-- Items follow each other up to a place where none begins, and are folded into
the state one after the other. -/
def Repeats (more : Token → Bool) (item : Phrase α) (fold : σ → α → σ)
    (follow : List Token → Prop) (state : σ) (tokens : List Token) (result : σ)
    (rest : List Token) : Prop :=
  ∃ used as, tokens = used ++ rest ∧ Many item used as ∧ result = as.foldl fold state ∧
    follow rest ∧ ∀ token ∈ rest.head?, more token = false

theorem repeats_iff_of_stop (hbegins : item.BeginsWith more) (hstart : follow tokens)
    (hstop : ∀ token ∈ tokens.head?, more token = false) :
    Repeats more item fold follow state tokens result rest ↔
      state = result ∧ tokens = rest := by
  constructor
  · intro hrepeats
    obtain ⟨used, as, rfl, hmany, rfl, -, -⟩ := hrepeats
    cases hmany with
    | nil =>
        exact ⟨rfl, rfl⟩
    | cons hitem hmany =>
        obtain ⟨token, tail, rfl, htoken⟩ := hbegins _ _ hitem
        have hfalse := hstop token (by simp)
        rw [htoken] at hfalse
        contradiction
  · intro hresult
    obtain ⟨rfl, rfl⟩ := hresult
    exact ⟨[], [], rfl, .nil, rfl, hstart, hstop⟩

theorem repeats_iff_of_more {next : Token} {tail : List Token}
    (hfollows : ∀ used a rest, item used a → follow (used ++ rest))
    (hnext : more next = true) :
    Repeats more item fold follow state (next :: tail) result rest ↔
      ∃ first a middle, next :: tail = first ++ middle ∧ item first a ∧ follow middle ∧
        Repeats more item fold follow (fold state a) middle result rest := by
  constructor
  · intro hrepeats
    obtain ⟨used, as, htokens, hmany, hresult, hrest, hstop⟩ := hrepeats
    cases hmany with
    | nil =>
        obtain rfl : rest = next :: tail := htokens.symm
        have hfalse := hstop next rfl
        rw [hnext] at hfalse
        contradiction
    | @cons first others a as hitem hmany =>
        have hmiddle : follow (others ++ rest) := follow_of_many hfollows hmany hrest
        exact ⟨first, a, others ++ rest, by rw [htokens, List.append_assoc], hitem, hmiddle,
          others, as, rfl, hmany, hresult, hrest, hstop⟩
  · intro hrepeats
    obtain ⟨first, a, middle, htokens, hitem, -, others, as, rfl, hmany, hresult, hrest,
      hstop⟩ := hrepeats
    exact ⟨first ++ others, a :: as, by rw [htokens, List.append_assoc], .cons hitem hmany,
      hresult, hrest, hstop⟩

theorem whileNextRounds_ok_iff_of_more {next round : Token} {tail rounds : List Token}
    (hnext : more next = true) :
    whileNextRounds more step (round :: rounds) state (next :: tail) = .ok (result, rest) ↔
      ∃ middleState middle, step state (next :: tail) = .ok (middleState, middle) ∧
        whileNextRounds more step rounds middleState middle = .ok (result, rest) := by
  simp only [whileNextRounds, hnext, if_true]
  cases step state (next :: tail) with
  | error failure =>
      simp
  | ok read =>
      obtain ⟨middleState, middle⟩ := read
      simp [and_assoc]

theorem ExactLoop.whileNextRounds_ok_iff (hloop : ExactLoop bound more step item fold follow)
    (rounds tokens : List Token) (hrounds : tokens.length ≤ rounds.length)
    (hlength : tokens.length < bound) (hstart : follow tokens) (state : σ) :
    whileNextRounds more step rounds state tokens = .ok (result, rest) ↔
      Repeats more item fold follow state tokens result rest := by
  induction rounds generalizing tokens state with
  | nil =>
      obtain rfl : tokens = [] := List.eq_nil_of_length_eq_zero (by simpa using hrounds)
      rw [repeats_iff_of_stop hloop.begins hstart (by simp)]
      simp [whileNextRounds]
  | cons round rounds ih =>
      cases tokens with
      | nil =>
          rw [repeats_iff_of_stop hloop.begins hstart (by simp)]
          simp [whileNextRounds]
      | cons next tail =>
          by_cases hnext : more next = true
          · rw [whileNextRounds_ok_iff_of_more hnext, repeats_iff_of_more hloop.follows hnext]
            have hshorter : ∀ first a middle, item first a → next :: tail = first ++ middle →
                middle.length ≤ rounds.length ∧ middle.length < bound := by
              intro first a middle hitem htokens
              have hlt := hloop.begins.length_lt hitem middle
              rw [← htokens] at hlt
              simp only [List.length_cons] at hlt hrounds hlength
              omega
            constructor
            · intro hresult
              obtain ⟨middleState, middle, hrun, hrounds⟩ := hresult
              obtain ⟨first, htokens, ⟨a, hitem, rfl⟩, hmiddle⟩ :=
                (hloop.step state _ hlength _ _).1 hrun
              obtain ⟨hle, hlt⟩ := hshorter first a middle hitem htokens
              exact ⟨first, a, middle, htokens, hitem, hmiddle,
                (ih middle hle hlt hmiddle _).1 hrounds⟩
            · intro hresult
              obtain ⟨first, a, middle, htokens, hitem, hmiddle, hrepeats⟩ := hresult
              obtain ⟨hle, hlt⟩ := hshorter first a middle hitem htokens
              have hrun : step state (next :: tail) = .ok (fold state a, middle) :=
                (hloop.step state _ hlength _ _).2 ⟨first, htokens, ⟨a, hitem, rfl⟩, hmiddle⟩
              exact ⟨fold state a, middle, hrun, (ih middle hle hlt hmiddle _).2 hrepeats⟩
          · rw [repeats_iff_of_stop hloop.begins hstart (by simpa using hnext)]
            simp [whileNextRounds, hnext]

theorem ExactLoop.whileNext_ok_iff (hloop : ExactLoop bound more step item fold follow)
    (hlength : tokens.length < bound) (hstart : follow tokens) :
    whileNext more step state tokens = .ok (result, rest) ↔
      Repeats more item fold follow state tokens result rest :=
  hloop.whileNextRounds_ok_iff tokens tokens (Nat.le_refl _) hlength hstart state

/-- A loop after an exact production. -/
theorem ExactLoop.exact_foldedLeft {base : Production σ} {basePhrase : Phrase σ}
    (hloop : ExactLoop bound more step item fold follow)
    (hbase : Exact bound base basePhrase follow) :
    Exact bound (do
        let start ← base
        whileNext more step start)
      (FoldedLeft basePhrase item fold)
      (fun rest => follow rest ∧ ∀ token ∈ rest.head?, more token = false) := by
  intro tokens hlength result rest
  simp only [bind_ok_iff, hbase tokens hlength]
  constructor
  · intro hresult
    obtain ⟨start, middle, ⟨first, rfl, hfirst, hmiddle⟩, hrun⟩ := hresult
    simp only [List.length_append] at hlength
    obtain ⟨others, as, rfl, hmany, rfl, hrest, hstop⟩ :=
      (hloop.whileNext_ok_iff (by omega) hmiddle).1 hrun
    exact ⟨first ++ others, by simp, ⟨first, others, start, as, rfl, hfirst, hmany, rfl⟩,
      hrest, hstop⟩
  · intro hresult
    obtain ⟨used, rfl, ⟨first, others, start, as, rfl, hfirst, hmany, rfl⟩, hrest, hstop⟩ :=
      hresult
    have hmiddle : follow (others ++ rest) := follow_of_many hloop.follows hmany hrest
    have hshorter : (others ++ rest).length < bound := by
      simp only [List.length_append] at hlength ⊢
      omega
    exact ⟨start, others ++ rest, ⟨first, by simp, hfirst, hmiddle⟩,
      (hloop.whileNext_ok_iff hshorter hmiddle).2
        ⟨others, as, rfl, hmany, rfl, hrest, hstop⟩⟩

theorem manyWhile_ok_iff {production : Production α} {as : List α}
    (hbegins : item.BeginsWith more)
    (hfollows : ∀ used a rest, item used a → follow (used ++ rest))
    (hitem : Exact bound production item follow)
    (hlength : tokens.length < bound) (hstart : follow tokens) :
    manyWhile more production tokens = .ok (as, rest) ↔
      ∃ used, tokens = used ++ rest ∧ Many item used as ∧ follow rest ∧
        ∀ token ∈ rest.head?, more token = false := by
  have hloop : ExactLoop bound more
      (fun items => do
        let next ← production
        return next :: items)
      item (fun items next => next :: items) follow :=
    ⟨hbegins, hfollows, fun items => hitem.map (· :: items)⟩
  unfold manyWhile
  simp only [bind_ok_iff, pure_ok_iff, hloop.whileNext_ok_iff hlength hstart, Repeats]
  constructor
  · intro hresult
    obtain ⟨items, middle, ⟨used, as', rfl, hmany, rfl, hfollow, hstop⟩, rfl, rfl⟩ := hresult
    exact ⟨used, rfl, by simpa using hmany, hfollow, hstop⟩
  · intro hresult
    obtain ⟨used, rfl, hmany, hfollow, hstop⟩ := hresult
    exact ⟨as.reverse, rest, ⟨used, as, rfl, hmany, by simp, hfollow, hstop⟩, by simp, rfl⟩

end Loops

/-- Items that may be followed by anything end where no further item begins. -/
theorem exact_manyWhile {bound : Nat} {more : Token → Bool} {item : Phrase α}
    {production : Production α} (hbegins : item.BeginsWith more)
    (hitem : Exact bound production item fun _ => True) :
    Exact bound (manyWhile more production) (Many item)
      (fun rest => ∀ token ∈ rest.head?, more token = false) := by
  intro tokens hlength as rest
  rw [manyWhile_ok_iff hbegins (fun _ _ _ _ => trivial) hitem hlength trivial]
  simp

theorem exact_after {bound : Nat} {item : Phrase α} {production : Production α}
    {follow : List Token → Prop} (mark : Symbol) (hitem : Exact bound production item follow) :
    Exact (bound + 1) (do
        symbol mark
        production)
      (After mark item) follow := by
  intro tokens hlength a rest
  simp only [bind_ok_iff, symbol_ok_iff]
  constructor
  · intro hresult
    obtain ⟨_, middle, rfl, hrun⟩ := hresult
    obtain ⟨used, rfl, hused, hrest⟩ := (hitem middle (by simpa using hlength) a rest).1 hrun
    exact ⟨.symbol mark :: used, rfl, .intro hused, hrest⟩
  · intro hresult
    obtain ⟨_, rfl, ⟨hused⟩, hrest⟩ := hresult
    refine ⟨(), _, rfl, (hitem _ (by simpa using hlength) a rest).2 ?_⟩
    exact ⟨_, rfl, hused, hrest⟩

theorem beginsWith_after {item : Phrase α} (mark : Symbol) :
    (After mark item).BeginsWith (· = .symbol mark) := by
  intro used a hafter
  obtain ⟨hused⟩ := hafter
  exact ⟨_, _, rfl, by simp⟩

section Parentheses

variable {bound : Nat} {item : Phrase α} {production : Production α}
  {follow : List Token → Prop} {as : List α}

theorem commaSeparated_closeParen :
    commaSeparated production (.symbol .closeParen :: tokens) =
      .ok ([], .symbol .closeParen :: tokens) :=
  rfl

theorem commaSeparated_ok_iff (hcomma : ∀ rest, follow (.symbol .comma :: rest))
    (hitem : Exact bound production item follow) (hlength : tokens.length < bound)
    (hhead : tokens.head? ≠ some (.symbol .closeParen)) :
    commaSeparated production tokens = .ok (as, rest) ↔
      ∃ first more a others, tokens = first ++ more ++ rest ∧ as = a :: others ∧
        item first a ∧ Many (After .comma item) more others ∧ follow rest ∧
        rest.head? ≠ some (.symbol .comma) := by
  have hfollows : ∀ used a rest, After .comma item used a → follow (used ++ rest) := by
    intro used a rest hafter
    obtain ⟨hused⟩ := hafter
    exact hcomma _
  have hothers : ∀ {middle rest : List Token} {others : List α}, middle.length < bound →
      follow middle →
      (manyWhile (· = .symbol .comma) (do
          symbol .comma
          production) middle = .ok (others, rest) ↔
        ∃ more, middle = more ++ rest ∧ Many (After .comma item) more others ∧ follow rest ∧
          ∀ token ∈ rest.head?, decide (token = .symbol .comma) = false) := by
    intro middle rest others hshorter hmiddle
    exact manyWhile_ok_iff (beginsWith_after .comma) hfollows (exact_after .comma hitem)
      (by omega) hmiddle
  unfold commaSeparated
  rw [peek_bind_apply, if_neg hhead]
  simp only [bind_ok_iff, pure_ok_iff, hitem tokens hlength]
  constructor
  · intro hresult
    obtain ⟨a, middle, ⟨first, rfl, hfirst, hmiddle⟩, others, _, hrun, rfl, rfl⟩ := hresult
    simp only [List.length_append] at hlength
    obtain ⟨more, rfl, hmore, hrest, hstop⟩ := (hothers (by omega) hmiddle).1 hrun
    exact ⟨first, more, a, others, by simp, rfl, hfirst, hmore, hrest,
      stops_before_iff.1 hstop⟩
  · intro hresult
    obtain ⟨first, more, a, others, rfl, rfl, hfirst, hmore, hrest, hstop⟩ := hresult
    have hmiddle := follow_of_many hfollows hmore hrest
    simp only [List.length_append] at hlength
    exact ⟨a, more ++ rest, ⟨first, by simp, hfirst, hmiddle⟩, others, rest,
      (hothers (by simp; omega) hmiddle).2
        ⟨more, rfl, hmore, hrest, stops_before_iff.2 hstop⟩,
      rfl, rfl⟩

theorem exact_parenthesized
    (hbegins : item.BeginsWith (· ≠ .symbol .closeParen))
    (hcomma : ∀ rest, follow (.symbol .comma :: rest))
    (hclose : ∀ rest, follow (.symbol .closeParen :: rest))
    (hitem : Exact bound production item follow) :
    Exact (bound + 1) (parenthesized production) (Parenthesized item) (fun _ => True) := by
  intro tokens hlength as rest
  unfold parenthesized
  simp only [bind_ok_iff, pure_ok_iff, symbol_ok_iff]
  constructor
  · intro hresult
    obtain ⟨⟨⟩, middle, rfl, as, _, hitems, ⟨⟩, _, rfl, rfl, rfl⟩ := hresult
    have hshorter : middle.length < bound := by simpa using hlength
    by_cases hhead : middle.head? = some (.symbol .closeParen)
    · obtain ⟨tail, rfl⟩ := List.head?_eq_some_iff.1 hhead
      rw [commaSeparated_closeParen] at hitems
      cases hitems
      exact ⟨_, rfl, .nil, trivial⟩
    · obtain ⟨first, more, a, others, rfl, rfl, hfirst, hmore, -, -⟩ :=
        (commaSeparated_ok_iff hcomma hitem hshorter hhead).1 hitems
      exact ⟨_, by simp, .cons hfirst hmore, trivial⟩
  · intro hresult
    obtain ⟨used, rfl, hused, -⟩ := hresult
    cases hused with
    | nil =>
        exact ⟨(), _, rfl, _, _, commaSeparated_closeParen, (), _, rfl, rfl, rfl⟩
    | @cons first more a others hfirst hmore =>
        have hhead : (first ++ more ++ .symbol .closeParen :: rest).head? ≠
            some (.symbol .closeParen) := by
          rw [List.append_assoc]
          exact hbegins.head?_ne hfirst _
        have hitems :
            commaSeparated production (first ++ more ++ .symbol .closeParen :: rest) =
              .ok (a :: others, .symbol .closeParen :: rest) :=
          (commaSeparated_ok_iff hcomma hitem (by simpa using hlength) hhead).2
            ⟨first, more, a, others, rfl, rfl, hfirst, hmore, hclose rest, by simp⟩
        exact ⟨(), _, by simp, _, _, hitems, (), _, rfl, rfl, rfl⟩

end Parentheses

end ClassLang.Production
