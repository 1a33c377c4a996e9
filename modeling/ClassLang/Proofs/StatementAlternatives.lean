import ClassLang.Proofs.ErrorPosition
import ClassLang.Proofs.ReadingProgress
import Mathlib.Data.List.Forall2

/-!
# Alternatives in any order

The three forms of a statement that no token decides are tried one after the other.
Wherever one of them succeeds the other two fail, so that no order of trying them
gives another statement or ends elsewhere.  The order shows only when all of them
fail: the failure that is reported is the last one of those that got furthest.
-/

namespace ClassLang

/-- The last item of those that rank highest. -/
def LastGreatest {β : Type} (rank : β → Nat) (items : List β) (item : β) : Prop :=
  ∃ earlier later, items = earlier ++ item :: later ∧
    (∀ other ∈ earlier, rank other ≤ rank item) ∧ ∀ other ∈ later, rank other < rank item

namespace LastGreatest

variable {β γ : Type} {rank : β → Nat} {items : List β} {first item : β}

theorem singleton (item : β) : LastGreatest rank [item] item :=
  ⟨[], [], rfl, by simp, by simp⟩

theorem le (hgreatest : LastGreatest rank items item) {other : β} (hother : other ∈ items) :
    rank other ≤ rank item := by
  obtain ⟨earlier, later, rfl, hearlier, hlater⟩ := hgreatest
  rcases List.mem_append.1 hother with hother | hother
  · exact hearlier other hother
  · rcases List.mem_cons.1 hother with rfl | hother
    · exact Nat.le_refl _
    · exact Nat.le_of_lt (hlater other hother)

theorem cons_of_le (hgreatest : LastGreatest rank items item) (hle : rank first ≤ rank item) :
    LastGreatest rank (first :: items) item := by
  obtain ⟨earlier, later, rfl, hearlier, hlater⟩ := hgreatest
  exact ⟨first :: earlier, later, rfl, List.forall_mem_cons.2 ⟨hle, hearlier⟩, hlater⟩

theorem cons_of_lt (hgreatest : LastGreatest rank items item) (hlt : rank item < rank first) :
    LastGreatest rank (first :: items) first :=
  ⟨[], items, rfl, by simp, fun _ hother => Nat.lt_of_le_of_lt (hgreatest.le hother) hlt⟩

theorem map {rank' : γ → Nat} {f : β → γ} {offset : Nat}
    (hrank : ∀ other, rank' (f other) = offset + rank other)
    (hgreatest : LastGreatest rank items item) :
    LastGreatest rank' (items.map f) (f item) := by
  obtain ⟨earlier, later, rfl, hearlier, hlater⟩ := hgreatest
  refine ⟨earlier.map f, later.map f, by simp, ?_, ?_⟩
  · intro other hother
    obtain ⟨source, hsource, rfl⟩ := List.mem_map.1 hother
    rw [hrank, hrank]
    exact Nat.add_le_add_left (hearlier source hsource) offset
  · intro other hother
    obtain ⟨source, hsource, rfl⟩ := List.mem_map.1 hother
    rw [hrank, hrank]
    exact Nat.add_lt_add_left (hlater source hsource) offset

end LastGreatest

namespace Production

variable {α : Type} {first second production : Production α}
  {others : List (Production α)} {tokens : List Token} {position : Nat}

/-- Two productions never succeed on the same tokens. -/
def Excludes (tokens : List Token) (first second : Production α) : Prop :=
  ∀ result, first tokens = .ok result → ∀ result', second tokens ≠ .ok result'

theorem Excludes.symm (hexcludes : Excludes tokens first second) :
    Excludes tokens second first :=
  fun result' hsecond result hfirst => hexcludes result hfirst result' hsecond

theorem firstOf_ok_iff_exists (hexclusive : (first :: others).Pairwise (Excludes tokens))
    {result : α × List Token} :
    firstOf first others tokens = .ok result ↔
      ∃ production ∈ first :: others, production tokens = .ok result := by
  induction others generalizing first with
  | nil => simp [firstOf]
  | cons second others ih =>
      obtain ⟨hfirst, hothers⟩ := List.pairwise_cons.1 hexclusive
      obtain ⟨a, rest⟩ := result
      rw [firstOf_ok_iff, ih hothers]
      constructor
      · intro hresult
        rcases hresult with hresult | ⟨-, production, hmem, hresult⟩
        · exact ⟨first, List.mem_cons_self, hresult⟩
        · exact ⟨production, List.mem_cons_of_mem _ hmem, hresult⟩
      · intro hresult
        obtain ⟨production, hmem, hresult⟩ := hresult
        rcases List.mem_cons.1 hmem with rfl | hmem
        · exact Or.inl hresult
        · exact Or.inr ⟨(hfirst production hmem).symm _ hresult, production, hmem, hresult⟩

theorem readAt_ok_iff {a : α} {next : Nat} :
    production.readAt tokens position = .ok (a, next) ↔
      ∃ rest, production (tokens.drop position) = .ok (a, rest) ∧
        next = position + ((tokens.drop position).length - rest.length) := by
  unfold readAt
  dsimp only
  cases production (tokens.drop position) with
  | error failure => simp
  | ok result =>
      obtain ⟨b, rest⟩ := result
      simp [and_assoc, eq_comm]

theorem readAt_error_iff {error : ParseError} :
    production.readAt tokens position = .error error ↔
      ∃ failure, production (tokens.drop position) = .error failure ∧
        error = (ParseError.ofFailure (tokens.drop position) failure).after position := by
  unfold readAt
  dsimp only
  cases production (tokens.drop position) with
  | error failure => simp [eq_comm]
  | ok result => simp

theorem position_after_ofFailure (failure : Failure) :
    ((ParseError.ofFailure tokens failure).after position).position =
      position + (tokens.length - failure.rest.length) := by
  obtain ⟨expected, rest⟩ := failure
  cases rest <;> rfl

/-- When all alternatives fail, the last one of those that got furthest decides. -/
theorem firstOf_error {failures : List Failure}
    (hfails : List.Forall₂ (fun production failure => production tokens = .error failure)
      (first :: others) failures)
    (hlengths : ∀ failure ∈ failures, failure.rest.length ≤ tokens.length) :
    ∃ failure, firstOf first others tokens = .error failure ∧
      LastGreatest (fun failure => tokens.length - failure.rest.length) failures failure := by
  induction others generalizing first failures with
  | nil =>
      obtain ⟨failure, rest, hfirst, hrest, rfl⟩ := List.forall₂_cons_left_iff.1 hfails
      obtain rfl := List.forall₂_nil_left_iff.1 hrest
      exact ⟨failure, hfirst, .singleton failure⟩
  | cons second others ih =>
      obtain ⟨earlier, rest, hfirst, hrest, rfl⟩ := List.forall₂_cons_left_iff.1 hfails
      obtain ⟨hearlier, hlengths⟩ := List.forall_mem_cons.1 hlengths
      obtain ⟨later, hlater, hgreatest⟩ := ih hrest hlengths
      have hlength : later.rest.length ≤ tokens.length := by
        obtain ⟨before, after, rfl, -, -⟩ := hgreatest
        exact hlengths later (by simp)
      refine ⟨earlier.furthest later, by rw [firstOf_of_error hfirst, hlater], ?_⟩
      by_cases hle : later.rest.length ≤ earlier.rest.length
      · rw [Failure.furthest, if_pos hle]
        exact hgreatest.cons_of_le (by omega)
      · rw [Failure.furthest, if_neg hle]
        exact hgreatest.cons_of_lt (by omega)

theorem Local.failure_length_le {consuming : Bool} (hlocal : Local consuming production)
    {failure : Failure} (hfails : production tokens = .error failure) :
    failure.rest.length ≤ tokens.length := by
  have hle := (hlocal _ 0 tokens (Nat.lt_succ_self _)).stop_length_le
  rwa [hfails] at hle

end Production

namespace Grammar

open Production

/-- The forms that are tried where no token decides which statement follows. -/
def statementForms : List (Production (Stmt Plain)) := [declaration, expStmt, assignment]

variable {tokens : List Token}

theorem statementForms_exclusive (tokens : List Token) :
    statementForms.Pairwise (Excludes tokens) := by
  refine List.Pairwise.cons ?_ (List.Pairwise.cons ?_ (List.pairwise_singleton _ _))
  · intro form hform
    simp only [List.mem_cons, List.not_mem_nil, or_false] at hform
    rcases hform with rfl | rfl
    · exact fun result hdeclaration => expStmt_ne_of_declaration hdeclaration
    · exact Excludes.symm fun result hassignment => declaration_ne_of_assignment hassignment
  · intro form hform
    obtain rfl := List.mem_singleton.1 hform
    exact Excludes.symm fun result hassignment => expStmt_ne_of_assignment hassignment

theorem stmt_ok_of_form {form : Production (Stmt Plain)} (hform : form ∈ statementForms)
    {s : Stmt Plain} {rest : List Token} (hresult : form tokens = .ok (s, rest)) :
    stmt tokens = .ok (s, rest) := by
  have hfirst : firstOf declaration [expStmt, assignment] tokens = .ok (s, rest) :=
    (firstOf_ok_iff_exists (statementForms_exclusive tokens)).2 ⟨form, hform, hresult⟩
  obtain ⟨used, htokens, hderives⟩ := derives_of_alternatives hfirst
  exact (Exact.ok_iff exact_stmt).2 ⟨used, htokens, hderives, trivial⟩

theorem stmt_of_undecided (hhead : ∀ token ∈ tokens.head?, token.decidesStmt = false) :
    stmt tokens = firstOf declaration [expStmt, assignment] tokens := by
  rw [stmt_eq]
  exact stmtLevel_of_undecided hhead

/-- At most one of the three forms can be read from a position, so they may be tried
in any order, and the one that succeeds is the statement that is read there.  When all
three fail, the error is the last one of those at the greatest position, and that is the
error of the statement unless a token decides which other form is to be read. -/
theorem statement_forms_in_any_order :
    (∀ tokens position, statementForms.Pairwise fun first second =>
      ∀ result, first.readAt tokens position = .ok result →
        ∀ result', second.readAt tokens position ≠ .ok result') ∧
    (∀ first others, (first :: others).Perm statementForms → ∀ tokens position result,
      (firstOf first others).readAt tokens position = .ok result ↔
        (firstOf declaration [expStmt, assignment]).readAt tokens position = .ok result) ∧
    (∀ form ∈ statementForms, ∀ tokens position result,
      form.readAt tokens position = .ok result → stmt.readAt tokens position = .ok result) ∧
    ∀ tokens position ofDeclaration ofExp ofAssignment,
      declaration.readAt tokens position = .error ofDeclaration →
      expStmt.readAt tokens position = .error ofExp →
      assignment.readAt tokens position = .error ofAssignment →
      ∃ error, LastGreatest ParseError.position [ofDeclaration, ofExp, ofAssignment] error ∧
        (firstOf declaration [expStmt, assignment]).readAt tokens position = .error error ∧
        ((∀ token ∈ tokens[position]?, token.decidesStmt = false) →
          stmt.readAt tokens position = .error error) := by
  refine ⟨?_, ?_, ?_, ?_⟩
  · intro tokens position
    refine (statementForms_exclusive (tokens.drop position)).imp ?_
    intro first second hexcludes result hfirst result' hsecond
    obtain ⟨rest, hrest, -⟩ := readAt_ok_iff.1 hfirst
    obtain ⟨rest', hrest', -⟩ := readAt_ok_iff.1 hsecond
    exact hexcludes _ hrest _ hrest'
  · intro first others hperm tokens position result
    have hexclusive := statementForms_exclusive (tokens.drop position)
    have hexclusive' : (first :: others).Pairwise (Excludes (tokens.drop position)) :=
      (hperm.pairwise_iff Excludes.symm).2 hexclusive
    have hsame (outcome : Stmt Plain × List Token) :
        firstOf first others (tokens.drop position) = .ok outcome ↔
          firstOf declaration [expStmt, assignment] (tokens.drop position) = .ok outcome := by
      rw [firstOf_ok_iff_exists hexclusive', firstOf_ok_iff_exists hexclusive]
      exact exists_congr fun form => and_congr_left fun _ => hperm.mem_iff
    obtain ⟨s, next⟩ := result
    simp only [readAt_ok_iff, hsame]
  · intro form hform tokens position result hresult
    obtain ⟨s, next⟩ := result
    obtain ⟨rest, hrest, hnext⟩ := readAt_ok_iff.1 hresult
    exact readAt_ok_iff.2 ⟨rest, stmt_ok_of_form hform hrest, hnext⟩
  · intro tokens position _ _ _ hdeclaration hexp hassignment
    obtain ⟨declared, hdeclared, rfl⟩ := readAt_error_iff.1 hdeclaration
    obtain ⟨valued, hvalued, rfl⟩ := readAt_error_iff.1 hexp
    obtain ⟨assigned, hassigned, rfl⟩ := readAt_error_iff.1 hassignment
    have hlengths : ∀ failure ∈ [declared, valued, assigned],
        failure.rest.length ≤ (tokens.drop position).length := by
      simp only [List.forall_mem_cons, List.not_mem_nil, false_implies, implies_true, and_true]
      exact ⟨local_declaration.failure_length_le hdeclared,
        local_expStmt.failure_length_le hvalued, local_assignment.failure_length_le hassigned⟩
    obtain ⟨failure, hfailure, hgreatest⟩ := firstOf_error
      (.cons hdeclared (.cons hvalued (.cons hassigned .nil))) hlengths
    refine ⟨_, hgreatest.map fun other => position_after_ofFailure other,
      readAt_error_iff.2 ⟨failure, hfailure, rfl⟩, ?_⟩
    intro hundecided
    refine readAt_error_iff.2 ⟨failure, ?_, rfl⟩
    rw [← List.head?_drop] at hundecided
    rw [stmt_of_undecided hundecided]
    exact hfailure

theorem statement_forms_in_any_order_valuelessTokens :
    [assignment, expStmt, declaration].Perm statementForms ∧
    (firstOf assignment [expStmt, declaration]).readAt storingTokens 0 =
      .ok (.assign ⟨"b"⟩ groupedExp, storingTokens.length) ∧
    stmt.readAt storingTokens 0 = .ok (.assign ⟨"b"⟩ groupedExp, storingTokens.length) ∧
    (∃ error, stmt.readAt valuelessTokens 0 = .error error ∧
      LastGreatest ParseError.position
        [.unexpected .identifier (.symbol .assign) 1,
          .unexpected (.token (.symbol .semicolon)) (.symbol .assign) 1,
          .unexpected .expression (.symbol .semicolon) 2] error) ∧
    ∃ error, stmt.readAt valuelessTokens 2 = .error error ∧
      LastGreatest ParseError.position
        [.unexpected .type (.symbol .semicolon) 2, .unexpected .expression (.symbol .semicolon) 2,
          .unexpected .identifier (.symbol .semicolon) 2] error := by
  obtain ⟨-, hany, hform, hfails⟩ := statement_forms_in_any_order
  obtain ⟨late, hlate, -, hstmt⟩ := hfails valuelessTokens 0 _ _ _ rfl rfl rfl
  obtain ⟨tied, htied, -, hstmt'⟩ := hfails valuelessTokens 2 _ _ _ rfl rfl rfl
  have hperm : [assignment, expStmt, declaration].Perm statementForms :=
    List.reverse_perm statementForms
  exact ⟨hperm, (hany _ _ hperm storingTokens 0 _).2 rfl,
    hform assignment (by simp [statementForms]) storingTokens 0 _ rfl,
    ⟨late, hstmt (by decide), hlate⟩, tied, hstmt' (by decide), htied⟩

end Grammar

end ClassLang
