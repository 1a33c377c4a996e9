import ClassLang.Proofs.LocalProduction

/-!
# Reading from a position

A production reads what is left of the tokens.  Seen from the first of all tokens,
it is started at a position and ends at another one, or fails there.  For a local
production that other position is ahead, and the outcome is settled by the tokens
up to there.
-/

namespace ClassLang

/-- The same error in tokens that come after others. -/
def ParseError.after (skipped : Nat) : ParseError → ParseError
  | unexpected expected actual position => unexpected expected actual (skipped + position)
  | unexpectedEnd expected position => unexpectedEnd expected (skipped + position)
  | trailingTokens actual position => trailingTokens actual (skipped + position)

namespace Production

variable {α : Type}

/-- Reads the tokens from a position on. -/
def readAt (production : Production α) (tokens : List Token) (position : Nat) :
    Except ParseError (α × Nat) :=
  let remaining := tokens.drop position
  match production remaining with
  | .ok (a, rest) => .ok (a, position + (remaining.length - rest.length))
  | .error failure => .error ((ParseError.ofFailure remaining failure).after position)

/-- Reads all tokens: from the first one on, and nothing may be left. -/
def readWhole (production : Production α) (tokens : List Token) : Except ParseError α :=
  match production.readAt tokens 0 with
  | .error error => .error error
  | .ok (a, next) =>
    match tokens[next]? with
    | none => .ok a
    | some actual => .error (.trailingTokens actual next)

/-- Two token lists have the same tokens up to and including an index, or both end
before it. -/
def SameUpTo (last : Nat) (tokens others : List Token) : Prop :=
  ∀ index ≤ last, others[index]? = tokens[index]?

/-- Reading ends ahead of where it starts, or fails there, and leaves the tokens from there
on.  Other tokens further ahead would not change anything. -/
structure SettledAt (consuming : Bool) (production : Production α) (tokens : List Token)
    (position : Nat) : Prop where
  ok : ∀ a next, production.readAt tokens position = .ok (a, next) →
    position ≤ next ∧ next ≤ tokens.length ∧ (consuming = true → position < next) ∧
      production (tokens.drop position) = .ok (a, tokens.drop next) ∧
      ∀ others, SameUpTo next tokens others →
        production.readAt others position = .ok (a, next)
  error : ∀ error, production.readAt tokens position = .error error →
    position ≤ error.position ∧ error.position ≤ tokens.length ∧
      (∃ expected, production (tokens.drop position) =
        .error ⟨expected, tokens.drop error.position⟩) ∧
      ∀ others, SameUpTo error.position tokens others →
        production.readAt others position = .error error

/-- The outcome of reading that stops at the given position. -/
def located (position : Nat) :
    Except Failure (α × List Token) → Except ParseError (α × Nat)
  | .ok (a, _) => .ok (a, position)
  | .error ⟨expected, []⟩ => .error (.unexpectedEnd expected position)
  | .error ⟨expected, actual :: _⟩ => .error (.unexpected expected actual position)

variable {production : Production α} {consuming : Bool} {position : Nat}
  {tokens others used rest : List Token} {result : Except Failure (α × List Token)}

theorem located_moved (hhead : rest.head? = (stop result).head?) :
    located position (moved rest result) = located position result := by
  cases result with
  | ok result => rfl
  | error failure =>
      obtain ⟨expected, left⟩ := failure
      rw [stop_error] at hhead
      cases left with
      | nil =>
          obtain rfl := List.head?_eq_none_iff.1 hhead
          rfl
      | cons actual left =>
          obtain ⟨tail, rfl⟩ := List.head?_eq_some_iff.1 hhead
          rfl

theorem eq_of_located_ok {a : α} {next : Nat} (hlocated : located position result = .ok (a, next)) :
    next = position ∧ ∃ rest, result = .ok (a, rest) := by
  match result, hlocated with
  | .ok (_, rest), hlocated =>
      simp only [located, Except.ok.injEq, Prod.mk.injEq] at hlocated
      exact ⟨hlocated.2.symm, rest, by rw [hlocated.1]⟩
  | .error ⟨_, []⟩, hlocated => cases hlocated
  | .error ⟨_, _ :: _⟩, hlocated => cases hlocated

theorem eq_of_located_error {error : ParseError}
    (hlocated : located position result = .error error) :
    error.position = position ∧ ∃ expected rest, result = .error ⟨expected, rest⟩ := by
  match result, hlocated with
  | .ok _, hlocated => cases hlocated
  | .error ⟨expected, []⟩, hlocated =>
      obtain rfl := Except.error.inj hlocated
      exact ⟨rfl, expected, [], rfl⟩
  | .error ⟨expected, actual :: rest⟩, hlocated =>
      obtain rfl := Except.error.inj hlocated
      exact ⟨rfl, expected, actual :: rest, rfl⟩

theorem readAt_eq_located
    (htokens : tokens.drop position = used ++ stop (production (tokens.drop position))) :
    production.readAt tokens position =
      located (position + used.length) (production (tokens.drop position)) := by
  unfold readAt
  have hlength := congrArg List.length htokens
  rw [List.length_append] at hlength
  dsimp only
  cases hresult : production (tokens.drop position) with
  | ok result =>
      rw [hresult, stop_ok] at hlength
      simp [located, hlength]
  | error failure =>
      obtain ⟨expected, rest⟩ := failure
      rw [hresult, stop_error] at hlength
      cases rest <;> simp [ParseError.ofFailure, ParseError.after, located, hlength]

theorem exists_drop_of_sameUpTo (hsame : SameUpTo (position + used.length) tokens others)
    (htokens : tokens.drop position = used ++ rest) :
    ∃ rest', others.drop position = used ++ rest' ∧ rest'.head? = rest.head? := by
  have hindex (index : Nat) (hle : index ≤ used.length) :
      (others.drop position)[index]? = (used ++ rest)[index]? := by
    rw [List.getElem?_drop, hsame _ (by omega), ← List.getElem?_drop, htokens]
  refine ⟨(others.drop position).drop used.length, ?_, ?_⟩
  · have htake : (others.drop position).take used.length = used := by
      apply List.ext_getElem?
      intro index
      by_cases hlt : index < used.length
      · rw [List.getElem?_take_of_lt hlt, hindex index (by omega),
          List.getElem?_append_left hlt]
      · rw [List.getElem?_eq_none (by rw [List.length_take]; omega),
          List.getElem?_eq_none (by omega)]
    calc
      others.drop position =
          (others.drop position).take used.length ++ (others.drop position).drop used.length :=
        (List.take_append_drop _ _).symm
      _ = used ++ (others.drop position).drop used.length := by rw [htake]
  · rw [List.head?_drop, hindex _ (Nat.le_refl _), List.getElem?_append_right (Nat.le_refl _),
      Nat.sub_self, List.head?_eq_getElem?]

/-- Other tokens further ahead do not change the outcome. -/
theorem Local.readAt_eq (hlocal : Local consuming production)
    (htokens : tokens.drop position = used ++ stop (production (tokens.drop position)))
    (hsame : SameUpTo (position + used.length) tokens others) :
    production.readAt others position = production.readAt tokens position := by
  obtain ⟨rest, hothers, hhead⟩ := exists_drop_of_sameUpTo hsame htokens
  obtain ⟨used', htokens', hother⟩ :=
    (hlocal _ ((used ++ rest).length + 1) _ (Nat.lt_succ_self _)).carries
  obtain rfl : used = used' := List.append_cancel_right (htokens.symm.trans htokens')
  have hrun := hother rest hhead (Nat.lt_succ_self _)
  have hstop : stop (production (used ++ rest)) = rest := by
    rw [hrun]
    cases production (tokens.drop position) <;> rfl
  have hsplit : others.drop position = used ++ stop (production (others.drop position)) := by
    rw [hothers, hstop]
  rw [readAt_eq_located htokens, readAt_eq_located hsplit, hothers, hrun, located_moved hhead]

theorem Local.settledAt (hlocal : Local consuming production)
    (hposition : position ≤ tokens.length) : SettledAt consuming production tokens position := by
  have hcarries := hlocal _ 0 (tokens.drop position) (Nat.lt_succ_self _)
  obtain ⟨used, htokens, -⟩ := hcarries.carries
  have hlength := congrArg List.length htokens
  rw [List.length_append, List.length_drop] at hlength
  have hread := readAt_eq_located htokens
  have hleft : stop (production (tokens.drop position)) = tokens.drop (position + used.length) := by
    have hdropped := congrArg (List.drop used.length) htokens
    rw [List.drop_left, List.drop_drop] at hdropped
    exact hdropped.symm
  refine ⟨?_, ?_⟩
  · intro a next hresult
    obtain ⟨rfl, rest, hok⟩ := eq_of_located_ok (hread.symm.trans hresult)
    refine ⟨by omega, by omega, ?_, ?_, ?_⟩
    · intro hconsuming
      have hlt := hcarries.consumes hconsuming a rest hok
      rw [List.length_drop] at hlt
      rw [hok, stop_ok] at hlength
      omega
    · rw [hok, stop_ok] at hleft
      rw [hok, hleft]
    · intro others hsame
      rw [hlocal.readAt_eq htokens hsame]
      exact hresult
  · intro error hresult
    obtain ⟨hat, expected, rest, hfailed⟩ := eq_of_located_error (hread.symm.trans hresult)
    refine ⟨by omega, by omega, ?_, ?_⟩
    · rw [hfailed, stop_error] at hleft
      rw [hat, ← hleft]
      exact ⟨expected, hfailed⟩
    · intro others hsame
      rw [hat] at hsame
      rw [hlocal.readAt_eq htokens hsame]
      exact hresult

theorem Local.parseAll_eq (hlocal : Local consuming production) :
    production.parseAll tokens = production.readWhole tokens := by
  obtain ⟨used, htokens, -⟩ := (hlocal _ 0 tokens (Nat.lt_succ_self _)).carries
  have hread : production.readAt tokens 0 = located used.length (production tokens) := by
    have hfirst : tokens.drop 0 = used ++ stop (production (tokens.drop 0)) := htokens
    rw [readAt_eq_located hfirst, Nat.zero_add, List.drop_zero]
  unfold parseAll readWhole
  rw [hread]
  have hlength := congrArg List.length htokens
  rw [List.length_append] at hlength
  cases hresult : production tokens with
  | error failure =>
      obtain ⟨expected, rest⟩ := failure
      rw [hresult, stop_error] at hlength
      cases rest <;> simp [ParseError.ofFailure, located, hlength]
  | ok result =>
      obtain ⟨a, rest⟩ := result
      rw [hresult, stop_ok] at htokens hlength
      have hnext : tokens[used.length]? = rest.head? := by
        rw [htokens, List.getElem?_append_right (Nat.le_refl _), Nat.sub_self,
          List.head?_eq_getElem?]
      simp only [located, hnext]
      cases rest with
      | nil => rfl
      | cons next rest => simp [hlength]

end Production

end ClassLang
