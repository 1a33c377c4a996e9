import ClassLang.Grammar.Program
import ClassLang.Proofs.ProductionExactness

/-!
# Local productions

What a local production makes of the tokens is settled by the tokens up to and
including the one where it stops: in front of any other tokens that begin with the
same token, or that end as well, it does the same.  A production is consuming when
it has read something wherever it succeeds.

Recursive productions and loops are given a number of rounds that depends on all of
the tokens, also on those that are never looked at.  Locality is therefore stated
for two productions, one of which carries on what the other one does, with a bound
on the token lists of either side: one more round serves token lists that are longer
by one.  That the rounds suffice comes out as a consequence.
-/

namespace ClassLang.Production

variable {α β σ : Type}

/-- The tokens in front of which reading ends, whether it succeeds or not. -/
def stop : Except Failure (α × List Token) → List Token
  | .ok (_, rest) => rest
  | .error failure => failure.rest

/-- The same end of reading in front of other tokens. -/
def moved (rest : List Token) :
    Except Failure (α × List Token) → Except Failure (α × List Token)
  | .ok (a, _) => .ok (a, rest)
  | .error failure => .error ⟨failure.expected, rest⟩

@[simp] theorem stop_ok (a : α) (rest : List Token) : stop (.ok (a, rest)) = rest := rfl

@[simp] theorem stop_error (failure : Failure) :
    stop (.error failure : Except Failure (α × List Token)) = failure.rest := rfl

@[simp] theorem moved_ok (a : α) (rest rest' : List Token) :
    moved rest' (.ok (a, rest)) = .ok (a, rest') := rfl

@[simp] theorem moved_error (failure : Failure) (rest : List Token) :
    moved rest (.error failure : Except Failure (α × List Token)) =
      .error ⟨failure.expected, rest⟩ := rfl

@[simp] theorem moved_stop (result : Except Failure (α × List Token)) :
    moved (stop result) result = result := by
  cases result <;> rfl

/-- What `production` does with the tokens, `other` does with every token list
shorter than `bound` that agrees with them up to and including the token where
`production` stops. -/
structure CarriesTo (consuming : Bool) (bound : Nat) (production other : Production α)
    (tokens : List Token) : Prop where
  carries : ∃ used, tokens = used ++ stop (production tokens) ∧
    ∀ rest, rest.head? = (stop (production tokens)).head? → (used ++ rest).length < bound →
      other (used ++ rest) = moved rest (production tokens)
  consumes : consuming = true → ∀ a rest, production tokens = .ok (a, rest) →
    rest.length < tokens.length

def Alike (consuming : Bool) (bound bound' : Nat) (production other : Production α) : Prop :=
  ∀ tokens, tokens.length < bound → CarriesTo consuming bound' production other tokens

def Local (consuming : Bool) (production : Production α) : Prop :=
  ∀ bound bound', Alike consuming bound bound' production production

variable {consuming consuming' : Bool} {bound bound' : Nat} {p q : Production α}
  {tokens : List Token}

theorem head?_append_congr {used rest rest' : List Token} (hhead : rest.head? = rest'.head?) :
    (used ++ rest).head? = (used ++ rest').head? := by
  rw [List.head?_append, List.head?_append, hhead]

theorem CarriesTo.stop_length_le (hcarries : CarriesTo consuming bound p q tokens) :
    (stop (p tokens)).length ≤ tokens.length := by
  obtain ⟨used, htokens, -⟩ := hcarries.carries
  have hlength := congrArg List.length htokens
  rw [List.length_append] at hlength
  omega

theorem CarriesTo.weaken (hcarries : CarriesTo consuming bound p q tokens) :
    CarriesTo false bound p q tokens :=
  ⟨hcarries.carries, fun hfalse => by cases hfalse⟩

theorem Alike.weaken (halike : Alike consuming bound bound' p q) :
    Alike false bound bound' p q :=
  fun tokens hlength => (halike tokens hlength).weaken

theorem Alike.of_le {larger larger' : Nat} (halike : Alike consuming larger larger' p q)
    (hle : bound ≤ larger) (hle' : bound' ≤ larger') : Alike consuming bound bound' p q := by
  intro tokens hlength
  have hcarries := halike tokens (by omega)
  obtain ⟨used, htokens, hother⟩ := hcarries.carries
  refine ⟨⟨used, htokens, ?_⟩, hcarries.consumes⟩
  intro rest hhead hlength'
  exact hother rest hhead (by omega)

theorem Local.of_succ (halike : ∀ bound bound', Alike consuming (bound + 1) (bound' + 1) p p) :
    Local consuming p :=
  fun bound bound' => (halike bound bound').of_le (Nat.le_succ _) (Nat.le_succ _)

theorem CarriesTo.eq (hcarries : CarriesTo consuming bound p q tokens)
    (hlength : tokens.length < bound) : q tokens = p tokens := by
  obtain ⟨used, htokens, hother⟩ := hcarries.carries
  have hrun := hother (stop (p tokens)) rfl (htokens ▸ hlength)
  rwa [← htokens, moved_stop] at hrun

/-! ## Single tokens -/

/-- A production that stops where it starts, whatever comes after the next token. -/
theorem carriesTo_of_stays (hstop : stop (p tokens) = tokens)
    (hconsumes : consuming = true → ∀ a rest, p tokens ≠ .ok (a, rest))
    (hother : ∀ rest, rest.head? = tokens.head? → q rest = moved rest (p tokens)) :
    CarriesTo consuming bound p q tokens := by
  refine ⟨⟨[], by rw [hstop]; rfl, ?_⟩, ?_⟩
  · intro rest hhead _
    rw [hstop] at hhead
    exact hother rest hhead
  · intro hconsuming a rest hresult
    exact absurd hresult (hconsumes hconsuming a rest)

theorem local_pure (a : α) : Local false (pure a : Production α) := by
  intro bound bound' tokens _
  exact carriesTo_of_stays rfl (fun hfalse => by cases hfalse) fun _ _ => rfl

theorem local_fail (expected : Expected) : Local true (fail expected : Production α) := by
  intro bound bound' tokens _
  exact carriesTo_of_stays rfl (fun _ _ _ hresult => by cases hresult) fun _ _ => rfl

theorem local_expect (token : Token) : Local true (expect token) := by
  intro bound bound' tokens _
  by_cases hhead : tokens.head? = some token
  · obtain ⟨tail, rfl⟩ := List.head?_eq_some_iff.1 hhead
    have hrun (rest : List Token) : expect token (token :: rest) = .ok ((), rest) := by
      simp [expect]
    refine ⟨⟨[token], by rw [hrun]; rfl, ?_⟩, ?_⟩
    · intro rest _ _
      rw [hrun]
      exact hrun rest
    · intro _ a rest hresult
      rw [expect_ok_iff.1 hresult]
      simp
  · have hrun (rest : List Token) (hrest : rest.head? = tokens.head?) :
        expect token rest = .error ⟨.token token, rest⟩ := by
      cases rest with
      | nil => rfl
      | cons next rest =>
          have hne : next ≠ token := by
            intro heq
            rw [← hrest, heq] at hhead
            exact hhead rfl
          simp [expect, hne]
    apply carriesTo_of_stays
    · rw [hrun tokens rfl]
      rfl
    · intro _ a rest hresult
      rw [hrun tokens rfl] at hresult
      cases hresult
    · intro rest hrest
      rw [hrun rest hrest, hrun tokens rfl]
      rfl

theorem local_symbol (mark : Symbol) : Local true (symbol mark) := local_expect (.symbol mark)

theorem local_keyword (word : Keyword) : Local true (keyword word) :=
  local_expect (.keyword word)

/-! ## Branches

The next token decides which branch is taken, on both sides the same. -/

/-- After a token that is used up, a branch goes on with the tokens behind it. -/
theorem carriesTo_of_branch {level level' branch branch' : Production α} {next : Token}
    {tail : List Token} (hrun : level (next :: tail) = branch tail)
    (hrun' : ∀ rest, level' (next :: rest) = branch' rest)
    (hbranch : CarriesTo consuming bound branch branch' tail) :
    CarriesTo true (bound + 1) level level' (next :: tail) := by
  refine ⟨?_, ?_⟩
  · rw [hrun]
    obtain ⟨used, htail, hother⟩ := hbranch.carries
    refine ⟨next :: used, by rw [List.cons_append, ← htail], ?_⟩
    intro rest hhead hlength
    rw [List.cons_append, hrun']
    exact hother rest hhead (by simpa using hlength)
  · intro _ a rest hresult
    rw [hrun] at hresult
    have hle := hbranch.stop_length_le
    rw [hresult, stop_ok] at hle
    simp only [List.length_cons]
    omega

/-- A branch that looks at the next token once more. -/
theorem carriesTo_of_head {level level' : Production α} (hrun : level tokens = p tokens)
    (hrun' : ∀ rest, rest.head? = tokens.head? → level' rest = q rest)
    (hbranch : CarriesTo consuming bound p q tokens) :
    CarriesTo consuming bound level level' tokens := by
  refine ⟨?_, ?_⟩
  · rw [hrun]
    obtain ⟨used, htokens, hother⟩ := hbranch.carries
    refine ⟨used, htokens, ?_⟩
    intro rest hhead hlength
    have hsame : (used ++ rest).head? = tokens.head? := by
      rw [head?_append_congr hhead, ← htokens]
    rw [hrun' _ hsame]
    exact hother rest hhead hlength
  · rw [hrun]
    exact hbranch.consumes

theorem carriesTo_peek {f g : Option Token → Production α}
    (hbranch : CarriesTo consuming bound (f tokens.head?) (g tokens.head?) tokens) :
    CarriesTo consuming bound (peek >>= f) (peek >>= g) tokens := by
  refine carriesTo_of_head peek_bind_apply ?_ hbranch
  intro rest hhead
  rw [peek_bind_apply, hhead]

theorem local_identifier : Local true identifier := by
  intro bound bound' tokens _
  cases tokens with
  | nil =>
      refine carriesTo_of_head (p := fail .identifier) rfl ?_
        (local_fail .identifier 1 bound' [] Nat.zero_lt_one)
      intro rest hhead
      rw [List.head?_nil, List.head?_eq_none_iff] at hhead
      subst hhead
      rfl
  | cons next tail =>
      cases next with
      | ident name =>
          refine ⟨⟨[.ident name], rfl, fun rest _ _ => rfl⟩, ?_⟩
          intro _ _ _ hresult
          rw [identifier_ok_iff.1 hresult]
          simp
      | _ =>
          refine carriesTo_of_head (p := fail .identifier) rfl ?_
            (local_fail .identifier _ bound' _ (Nat.lt_succ_self _))
          intro rest hhead
          obtain ⟨tail', rfl⟩ := List.head?_eq_some_iff.1 hhead
          rfl

/-! ## Sequences -/

section Sequences

variable {first first' : Production α} {next next' : α → Production β}

theorem bind_of_ok {a : α} {middle : List Token} (hfirst : first tokens = .ok (a, middle)) :
    (first >>= next) tokens = next a middle := by
  change (first tokens >>= fun result => next result.1 result.2) = _
  rw [hfirst]
  rfl

theorem bind_of_error {failure : Failure} (hfirst : first tokens = .error failure) :
    (first >>= next) tokens = .error failure := by
  change (first tokens >>= fun result => next result.1 result.2) = _
  rw [hfirst]
  rfl

/-- What comes second gets by with the bound that the first part leaves. -/
theorem CarriesTo.bind {inner : Nat} (hfirst : CarriesTo consuming bound first first' tokens)
    (hinner : ∀ used rest : List Token, (consuming = true → used ≠ []) →
      (used ++ rest).length < bound → rest.length < inner)
    (hnext : ∀ a middle, first tokens = .ok (a, middle) →
      CarriesTo consuming' inner (next a) (next' a) middle) :
    CarriesTo (consuming || consuming') bound (first >>= next) (first' >>= next') tokens := by
  obtain ⟨used, htokens, hother⟩ := hfirst.carries
  cases hread : first tokens with
  | error failure =>
      rw [hread] at htokens hother
      refine ⟨?_, ?_⟩
      · rw [bind_of_error hread]
        refine ⟨used, htokens, ?_⟩
        intro rest hhead hlength
        exact bind_of_error (hother rest hhead hlength)
      · intro _ b rest hresult
        rw [bind_of_error hread] at hresult
        cases hresult
  | ok result =>
      obtain ⟨a, middle⟩ := result
      rw [hread] at htokens hother
      have hsecond := hnext a middle hread
      have hused : consuming = true → used ≠ [] := by
        intro hconsuming hnil
        have hlt := hfirst.consumes hconsuming a middle hread
        rw [htokens, hnil] at hlt
        simp at hlt
      refine ⟨?_, ?_⟩
      · rw [bind_of_ok hread]
        obtain ⟨more, hmiddle, hother'⟩ := hsecond.carries
        refine ⟨used ++ more, by rw [List.append_assoc, ← hmiddle]; exact htokens, ?_⟩
        intro rest hhead hlength
        rw [List.append_assoc] at hlength ⊢
        have hsame : (more ++ rest).head? = middle.head? := by
          rw [head?_append_congr hhead, ← hmiddle]
        rw [bind_of_ok (hother _ hsame hlength)]
        exact hother' rest hhead (hinner used _ hused hlength)
      · intro hconsuming b rest hresult
        rw [bind_of_ok hread] at hresult
        have hle : middle.length ≤ tokens.length := by
          have := hfirst.stop_length_le
          rwa [hread] at this
        have hle' : rest.length ≤ middle.length := by
          have := hsecond.stop_length_le
          rwa [hresult] at this
        rcases Bool.or_eq_true_iff.1 hconsuming with hconsuming | hconsuming
        · have hlt := hfirst.consumes hconsuming a middle hread
          omega
        · have hlt := hsecond.consumes hconsuming b rest hresult
          omega

theorem Alike.bind (hfirst : Alike consuming bound bound' first first')
    (hnext : ∀ a, Alike consuming' bound bound' (next a) (next' a)) :
    Alike (consuming || consuming') bound bound' (first >>= next) (first' >>= next') := by
  intro tokens hlength
  have hcarries := hfirst tokens hlength
  have hinner (used rest : List Token) (_ : consuming = true → used ≠ [])
      (hlength : (used ++ rest).length < bound') : rest.length < bound' := by
    rw [List.length_append] at hlength
    omega
  apply hcarries.bind hinner
  intro a middle hread
  have hle := hcarries.stop_length_le
  rw [hread, stop_ok] at hle
  exact hnext a middle (by omega)

/-- Behind a part that consumes a token, smaller bounds suffice. -/
theorem Alike.bind_inner (hfirst : Alike true (bound + 1) (bound' + 1) first first')
    (hnext : ∀ a, Alike consuming bound bound' (next a) (next' a)) :
    Alike true (bound + 1) (bound' + 1) (first >>= next) (first' >>= next') := by
  intro tokens hlength
  have hcarries := hfirst tokens hlength
  have hinner (used rest : List Token) (hused : true = true → used ≠ [])
      (hlength : (used ++ rest).length < bound' + 1) : rest.length < bound' := by
    have hpos := List.length_pos_iff.2 (hused rfl)
    rw [List.length_append] at hlength
    omega
  have hmiddle (a : α) (middle : List Token) (hread : first tokens = .ok (a, middle)) :
      CarriesTo consuming bound' (next a) (next' a) middle := by
    have hlt := hcarries.consumes rfl a middle hread
    exact hnext a middle (by omega)
  exact hcarries.bind hinner hmiddle

theorem Alike.map (hfirst : Alike consuming bound bound' first first') (f : α → β) :
    Alike consuming bound bound' (do
        let a ← first
        return f a)
      (do
        let a ← first'
        return f a) := by
  have hbind := hfirst.bind fun a => local_pure (f a) bound bound'
  rwa [Bool.or_false] at hbind

end Sequences

/-! ## Loops -/

section Loops

variable {more : Token → Bool} {step step' : σ → Production σ} {state : σ}

theorem whileNextRounds_of_stop (rounds : List Token) (hstop : tokens.head?.any more = false) :
    whileNextRounds more step rounds state tokens = .ok (state, tokens) := by
  cases tokens with
  | nil => cases rounds <;> rfl
  | cons next tail =>
      have hnext : more next = false := hstop
      cases rounds <;> simp [whileNextRounds, hnext]

theorem whileNextRounds_of_more {rounds : List Token} (hrounds : 0 < rounds.length)
    (hmore : tokens.head?.any more = true) :
    whileNextRounds more step rounds state tokens =
      match step state tokens with
      | .error failure => .error failure
      | .ok (after, rest) => whileNextRounds more step rounds.tail after rest := by
  obtain ⟨round, others, rfl⟩ := List.exists_cons_of_length_pos hrounds
  cases tokens with
  | nil => cases hmore
  | cons next tail =>
      have hnext : more next = true := hmore
      exact if_pos hnext

theorem length_pos_of_more (hmore : tokens.head?.any more = true) : 0 < tokens.length := by
  cases tokens with
  | nil => cases hmore
  | cons next tail => exact Nat.zero_lt_succ _

/-- With as many rounds as there are tokens, a loop ends by itself: what it does is
done with any other sufficient number of rounds, too. -/
theorem carries_whileNextRounds
    (hstep : ∀ state, Alike true bound bound' (step state) (step' state))
    (rounds tokens : List Token) (hrounds : tokens.length ≤ rounds.length)
    (hlength : tokens.length < bound) (state : σ) :
    ∃ used, tokens = used ++ stop (whileNextRounds more step rounds state tokens) ∧
      ∀ rest, rest.head? = (stop (whileNextRounds more step rounds state tokens)).head? →
        (used ++ rest).length < bound' →
        ∀ rounds' : List Token, (used ++ rest).length ≤ rounds'.length →
          whileNextRounds more step' rounds' state (used ++ rest) =
            moved rest (whileNextRounds more step rounds state tokens) := by
  induction rounds generalizing tokens state with
  | nil =>
      obtain rfl : tokens = [] := List.eq_nil_of_length_eq_zero (by simpa using hrounds)
      refine ⟨[], rfl, ?_⟩
      intro rest hhead _ rounds' _
      obtain rfl : rest = [] := List.head?_eq_none_iff.1 hhead
      exact whileNextRounds_of_stop rounds' rfl
  | cons round rounds ih =>
      by_cases hmore : tokens.head?.any more = true
      · rw [whileNextRounds_of_more (by simp) hmore, List.tail_cons]
        have hcarries := hstep state tokens hlength
        obtain ⟨used, htokens, hother⟩ := hcarries.carries
        have hmore' (rest : List Token)
            (hhead : rest.head? = (stop (step state tokens)).head?) :
            (used ++ rest).head?.any more = true := by
          rw [head?_append_congr hhead, ← htokens]
          exact hmore
        cases hread : step state tokens with
        | error failure =>
            rw [hread] at htokens hother hmore'
            refine ⟨used, htokens, ?_⟩
            intro rest hhead hlength' rounds' hrounds'
            have hpos := length_pos_of_more (hmore' rest hhead)
            rw [whileNextRounds_of_more (by omega) (hmore' rest hhead),
              hother rest hhead hlength']
            rfl
        | ok result =>
            obtain ⟨after, middle⟩ := result
            have hlt := hcarries.consumes rfl after middle hread
            rw [hread, stop_ok] at htokens hother hmore'
            rw [List.length_cons] at hrounds
            obtain ⟨used', hmiddle, hother'⟩ := ih middle (by omega) (by omega) after
            refine ⟨used ++ used', by rw [List.append_assoc, ← hmiddle]; exact htokens, ?_⟩
            intro rest hhead hlength' rounds' hrounds'
            rw [List.append_assoc] at hlength' hrounds' ⊢
            have hsame : (used' ++ rest).head? = middle.head? := by
              rw [head?_append_congr hhead, ← hmiddle]
            have hpos := length_pos_of_more (hmore' _ hsame)
            rw [whileNextRounds_of_more (by omega) (hmore' _ hsame), hother _ hsame hlength']
            -- The step has used up a token on this side, too.
            have hused : 0 < used.length := by
              have hsum := congrArg List.length htokens
              rw [List.length_append] at hsum
              omega
            rw [List.length_append] at hlength' hrounds'
            exact hother' rest hhead (by omega) _ (by rw [List.length_tail]; omega)
      · have hstop : tokens.head?.any more = false := Bool.eq_false_iff.2 hmore
        rw [whileNextRounds_of_stop _ hstop]
        refine ⟨[], rfl, ?_⟩
        intro rest hhead _ rounds' _
        apply whileNextRounds_of_stop
        rw [List.nil_append, hhead]
        exact hstop

theorem Alike.whileNext (hstep : ∀ state, Alike true bound bound' (step state) (step' state))
    (state : σ) :
    Alike false bound bound' (whileNext more step state) (whileNext more step' state) := by
  intro tokens hlength
  obtain ⟨used, htokens, hother⟩ :=
    carries_whileNextRounds hstep tokens tokens (Nat.le_refl _) hlength state
  refine ⟨⟨used, htokens, ?_⟩, fun hfalse => by cases hfalse⟩
  intro rest hhead hlength'
  exact hother rest hhead hlength' _ (Nat.le_refl _)

/-- The loop goes on as long as the next token asks for it, whatever number of rounds
that takes. -/
def Unrolls (more : Token → Bool) (step : σ → Production σ) : Prop :=
  ∀ state tokens, whileNext more step state tokens =
    if tokens.head?.any more then (step state >>= whileNext more step) tokens
    else .ok (state, tokens)

theorem Local.unrolls (hstep : ∀ state, Local true (step state)) : Unrolls more step := by
  intro state tokens
  by_cases hmore : tokens.head?.any more = true
  · rw [if_pos hmore]
    unfold whileNext
    rw [whileNextRounds_of_more (length_pos_of_more hmore) hmore]
    cases hread : step state tokens with
    | error failure => exact (bind_of_error hread).symm
    | ok result =>
        obtain ⟨after, middle⟩ := result
        rw [bind_of_ok hread]
        have hlt := (hstep state _ 0 _ (Nat.lt_succ_self _)).consumes rfl after middle hread
        obtain ⟨used, hmiddle, hother⟩ := carries_whileNextRounds
          (fun state => hstep state (middle.length + 1) (middle.length + 1)) middle middle
          (Nat.le_refl _) (Nat.lt_succ_self _) after
        have hsame := hother _ rfl (by rw [← hmiddle]; omega) tokens.tail
          (by rw [← hmiddle, List.length_tail]; omega)
        rwa [moved_stop, ← hmiddle] at hsame
  · rw [if_neg hmore]
    exact whileNextRounds_of_stop _ (Bool.eq_false_iff.2 hmore)

theorem Alike.manyWhile (hitem : Alike true bound bound' p q) :
    Alike false bound bound' (manyWhile more p) (manyWhile more q) :=
  (Alike.whileNext (fun items => hitem.map (· :: items)) []).map List.reverse

theorem Alike.commaSeparated (hitem : Alike consuming bound bound' p q) :
    Alike false bound bound' (commaSeparated p) (commaSeparated q) := by
  have hothers : Alike true bound bound'
      (do
        symbol .comma
        p)
      (do
        symbol .comma
        q) :=
    (local_symbol .comma bound bound').bind fun _ => hitem
  intro tokens hlength
  apply carriesTo_peek
  by_cases hclose : tokens.head? = some (.symbol .closeParen)
  · rw [if_pos hclose, if_pos hclose]
    exact local_pure [] bound bound' tokens hlength
  · rw [if_neg hclose, if_neg hclose]
    exact (hitem.bind fun first => hothers.manyWhile.map (first :: ·)).weaken tokens hlength

theorem Alike.parenthesized (hitem : Alike consuming bound bound' p q) :
    Alike true (bound + 1) (bound' + 1) (parenthesized p) (parenthesized q) := by
  have hclose (items : List α) := (local_symbol .closeParen bound bound').map fun _ => items
  exact (local_symbol .openParen _ _).bind_inner fun _ => hitem.commaSeparated.bind hclose

end Loops

/-! ## Alternatives -/

/-- A failure stays the same when only tokens further on are replaced. -/
theorem CarriesTo.error_beyond {failure : Failure} {used rest : List Token}
    (hcarries : CarriesTo consuming bound p q tokens) (hfails : p tokens = .error failure)
    (htokens : tokens = used ++ rest) (hle : rest.length ≤ failure.rest.length) :
    ∃ middle, failure.rest = middle ++ rest ∧
      ∀ rest', rest'.head? = rest.head? → (used ++ rest').length < bound →
        q (used ++ rest') = .error ⟨failure.expected, middle ++ rest'⟩ := by
  obtain ⟨left, hleft, hother⟩ := hcarries.carries
  rw [hfails] at hleft hother
  simp only [stop_error, moved_error] at hleft hother
  obtain ⟨middle, rfl⟩ : left <+: used := by
    apply List.prefix_of_prefix_length_le (hleft ▸ List.prefix_append left _)
      (htokens ▸ List.prefix_append used _)
    have hlength := congrArg List.length (hleft.symm.trans htokens)
    rw [List.length_append, List.length_append] at hlength
    omega
  have hrest : failure.rest = middle ++ rest := by
    have hboth : left ++ failure.rest = left ++ (middle ++ rest) := by
      rw [← hleft, htokens, List.append_assoc]
    exact List.append_cancel_left hboth
  refine ⟨middle, hrest, ?_⟩
  intro rest' hhead hlength
  rw [List.append_assoc] at hlength ⊢
  apply hother _ _ hlength
  rw [hrest]
  exact head?_append_congr hhead

/-- Of two failures the one that got furthest decides, and neither got further than
that. -/
theorem carries_furthest {first second : Production α} {earlier later : Failure}
    (hfirst : CarriesTo consuming bound first first tokens)
    (hsecond : CarriesTo consuming bound second second tokens)
    (hearlier : first tokens = .error earlier) (hlater : second tokens = .error later) :
    ∃ used, tokens = used ++ (earlier.furthest later).rest ∧
      ∀ rest, rest.head? = (earlier.furthest later).rest.head? →
        (used ++ rest).length < bound →
        ∃ earlier' later' : Failure, first (used ++ rest) = .error earlier' ∧
          second (used ++ rest) = .error later' ∧
          earlier'.furthest later' = ⟨(earlier.furthest later).expected, rest⟩ := by
  obtain ⟨used, htokens, -⟩ := hfirst.carries
  obtain ⟨used', htokens', -⟩ := hsecond.carries
  rw [hearlier, stop_error] at htokens
  rw [hlater, stop_error] at htokens'
  by_cases hle : later.rest.length ≤ earlier.rest.length
  · rw [Failure.furthest, if_pos hle]
    obtain ⟨middle, -, hother⟩ := hfirst.error_beyond hearlier htokens' hle
    obtain ⟨nothing, hnothing, hother'⟩ :=
      hsecond.error_beyond hlater htokens' (Nat.le_refl _)
    obtain rfl : nothing = [] := List.self_eq_append_left.1 hnothing
    refine ⟨used', htokens', ?_⟩
    intro rest hhead hlength
    refine ⟨_, _, hother rest hhead hlength, hother' rest hhead hlength, ?_⟩
    rw [Failure.furthest, if_pos (by simp)]
    rfl
  · rw [Failure.furthest, if_neg hle]
    obtain ⟨middle, hmiddle, hother⟩ := hsecond.error_beyond hlater htokens (by omega)
    obtain ⟨nothing, hnothing, hother'⟩ :=
      hfirst.error_beyond hearlier htokens (Nat.le_refl _)
    obtain rfl : nothing = [] := List.self_eq_append_left.1 hnothing
    refine ⟨used, htokens, ?_⟩
    intro rest hhead hlength
    refine ⟨_, _, hother' rest hhead hlength, hother rest hhead hlength, ?_⟩
    rw [hmiddle, List.length_append] at hle
    rw [Failure.furthest, if_neg (by simp only [List.length_append, List.length_nil]; omega)]
    rfl

theorem firstOf_of_ok {first second : Production α} {others : List (Production α)}
    {result : α × List Token} (hfirst : first tokens = .ok result) :
    firstOf first (second :: others) tokens = .ok result := by
  rw [firstOf, hfirst]

theorem firstOf_of_error {first second : Production α} {others : List (Production α)}
    {earlier : Failure} (hfirst : first tokens = .error earlier) :
    firstOf first (second :: others) tokens =
      match firstOf second others tokens with
      | .ok result => .ok result
      | .error later => .error (earlier.furthest later) := by
  cases hrest : firstOf second others tokens with
  | ok result => simp only [firstOf, hfirst, hrest]
  | error later => simp only [firstOf, hfirst, hrest]

/-- An alternative that failed may have looked further ahead than the one that is
taken.  What it saw there does not matter, because the alternatives exclude each
other. -/
theorem local_firstOf {first second : Production α} {others : List (Production α)}
    (hfirst : Local consuming first) (hsecond : Local consuming (firstOf second others))
    (hexclusive : ∀ tokens result, firstOf second others tokens = .ok result →
      ∀ result', first tokens ≠ .ok result') :
    Local consuming (firstOf first (second :: others)) := by
  intro bound bound' tokens hlength
  have hcarries := hfirst bound bound' tokens hlength
  have hcarries' := hsecond bound bound' tokens hlength
  cases hread : first tokens with
  | ok result =>
      refine ⟨?_, ?_⟩
      · obtain ⟨used, htokens, hother⟩ := hcarries.carries
        rw [firstOf_of_ok hread]
        rw [hread] at htokens hother
        refine ⟨used, htokens, ?_⟩
        intro rest hhead hlength'
        exact firstOf_of_ok (hother rest hhead hlength')
      · rw [firstOf_of_ok hread, ← hread]
        exact hcarries.consumes
  | error earlier =>
      have hconsumes := hcarries'.consumes
      cases hread' : firstOf second others tokens with
      | ok result =>
          refine ⟨?_, ?_⟩
          · obtain ⟨used, htokens, hother⟩ := hcarries'.carries
            rw [hread'] at htokens hother
            rw [firstOf_of_error hread, hread']
            refine ⟨used, htokens, ?_⟩
            intro rest hhead hlength'
            have hrun := hother rest hhead hlength'
            cases hfails : first (used ++ rest) with
            | ok result' => exact absurd hfails (hexclusive _ _ hrun result')
            | error earlier' => rw [firstOf_of_error hfails, hrun]; rfl
          · rw [firstOf_of_error hread, hread']
            rw [hread'] at hconsumes
            exact hconsumes
      | error later =>
          refine ⟨?_, ?_⟩
          · obtain ⟨used, htokens, hother⟩ :=
              carries_furthest hcarries hcarries' hread hread'
            rw [firstOf_of_error hread, hread']
            refine ⟨used, htokens, ?_⟩
            intro rest hhead hlength'
            obtain ⟨earlier', later', hfails, hfails', hfurthest⟩ := hother rest hhead hlength'
            rw [firstOf_of_error hfails, hfails']
            exact congrArg Except.error hfurthest
          · intro _ a rest hresult
            rw [firstOf_of_error hread, hread'] at hresult
            cases hresult

/-! ## Recursion -/

section Recursion

variable {body : Production α → Production α}

theorem alike_fixedRounds
    (hbody : ∀ bound bound' p q, Alike true bound bound' p q →
      Alike true (bound + 1) (bound' + 1) (body p) (body q))
    (rounds rounds' : List Token) :
    Alike true (rounds.length + 1) (rounds'.length + 1) (fixedRounds body rounds)
      (fixedRounds body rounds') := by
  induction rounds generalizing rounds' with
  | nil =>
      -- The first side is not asked for anything, so that the second may be any production.
      have hvacuous (q : Production α) : Alike true 0 rounds'.length (fail .expression) q :=
        fun tokens hlength => absurd hlength (Nat.not_lt_zero _)
      cases rounds' with
      | nil => exact hbody _ _ _ _ (hvacuous _)
      | cons round' rounds' => exact hbody _ _ _ _ (hvacuous _)
  | cons round rounds ih =>
      cases rounds' with
      | nil =>
          have hshort : Alike true (rounds.length + 1) 0 (fixedRounds body rounds)
              (fail .expression) := by
            intro tokens hlength
            have hcarries := ih [] tokens hlength
            obtain ⟨used, htokens, -⟩ := hcarries.carries
            refine ⟨⟨used, htokens, ?_⟩, hcarries.consumes⟩
            intro rest _ hlength'
            exact absurd hlength' (Nat.not_lt_zero _)
          exact hbody _ _ _ _ hshort
      | cons round' rounds' => exact hbody _ _ _ _ (ih rounds')

theorem alike_fixed
    (hbody : ∀ bound bound' p q, Alike true bound bound' p q →
      Alike true (bound + 1) (bound' + 1) (body p) (body q))
    (rounds : List Token) (bound : Nat) :
    Alike true (rounds.length + 1) bound (fixedRounds body rounds) (fixed body) := by
  intro tokens hlength
  have hcarries := alike_fixedRounds hbody rounds
  obtain ⟨used, htokens, -⟩ := (hcarries [] tokens hlength).carries
  refine ⟨⟨used, htokens, ?_⟩, (hcarries [] tokens hlength).consumes⟩
  intro rest hhead _
  obtain ⟨used', htokens', hother⟩ := (hcarries (used ++ rest) tokens hlength).carries
  obtain rfl : used = used' := List.append_cancel_right (htokens.symm.trans htokens')
  exact hother rest hhead (Nat.lt_succ_self _)

theorem local_fixed
    (hbody : ∀ bound bound' p q, Alike true bound bound' p q →
      Alike true (bound + 1) (bound' + 1) (body p) (body q)) :
    Local true (fixed body) := by
  intro bound bound' tokens _
  have hcarries := alike_fixed hbody tokens bound' tokens (Nat.lt_succ_self _)
  exact ⟨hcarries.carries, hcarries.consumes⟩

/-- The rounds of a recursive production are as good as the recursion itself. -/
theorem fixed_eq
    (hbody : ∀ bound bound' p q, Alike true bound bound' p q →
      Alike true (bound + 1) (bound' + 1) (body p) (body q)) :
    fixed body = body (fixed body) := by
  funext tokens
  cases tokens with
  | nil =>
      have hvacuous : Alike true 0 0 (fail .expression) (fixed body) :=
        fun tokens hlength => absurd hlength (Nat.not_lt_zero _)
      exact ((hbody _ _ _ _ hvacuous [] Nat.zero_lt_one).eq Nat.zero_lt_one).symm
  | cons next tail =>
      have hrounds := hbody _ _ _ _ (alike_fixed hbody tail (tail.length + 1))
      exact ((hrounds (next :: tail) (Nat.lt_succ_self _)).eq (Nat.lt_succ_self _)).symm

end Recursion

end ClassLang.Production
