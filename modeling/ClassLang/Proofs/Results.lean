/-!
# Results that may be errors

Every pass stops at its first error.  So steps in a row succeed exactly if each of
them does, and they fail with the error of the first one that fails.
-/

namespace ClassLang

theorem bind_eq_ok_iff {ε α β : Type} {first : Except ε α} {next : α → Except ε β}
    {result : β} :
    (first >>= next) = .ok result ↔ ∃ value, first = .ok value ∧ next value = .ok result := by
  cases first with
  | error error =>
      constructor
      · intro herror
        cases herror
      · intro hok
        obtain ⟨value, hvalue, -⟩ := hok
        cases hvalue
  | ok value =>
      constructor
      · intro hok
        exact ⟨value, rfl, hok⟩
      · intro hok
        obtain ⟨other, hother, hnext⟩ := hok
        cases hother
        exact hnext

theorem pure_eq_ok_iff {ε α : Type} {value result : α} :
    (pure value : Except ε α) = .ok result ↔ value = result := by
  change Except.ok value = Except.ok result ↔ value = result
  simp

theorem bind_eq_error_iff {ε α β : Type} {first : Except ε α} {next : α → Except ε β}
    {error : ε} :
    (first >>= next) = .error error ↔
      first = .error error ∨ ∃ value, first = .ok value ∧ next value = .error error := by
  cases first with
  | error cause =>
      change Except.error cause = Except.error error ↔ _
      simp
  | ok value =>
      change next value = Except.error error ↔ _
      simp

theorem bind_pure_eq_error_iff {ε α β : Type} {first : Except ε α} {finish : α → β}
    {error : ε} :
    (first >>= fun value => pure (finish value)) = .error error ↔ first = .error error := by
  rw [bind_eq_error_iff, or_iff_left]
  rintro ⟨value, -, hpure⟩
  cases hpure

theorem mapError_eq_ok_iff {ε ε' α : Type} {result : Except ε α} {wrap : ε → ε'} {value : α} :
    result.mapError wrap = .ok value ↔ result = .ok value := by
  cases result with
  | error cause =>
      change Except.error (wrap cause) = Except.ok value ↔ _
      simp
  | ok other =>
      change Except.ok other = Except.ok value ↔ _
      simp

theorem mapError_eq_error_iff {ε ε' α : Type} {result : Except ε α} {wrap : ε → ε'}
    {error : ε'} :
    result.mapError wrap = .error error ↔ ∃ cause, result = .error cause ∧ wrap cause = error := by
  cases result with
  | error cause =>
      change Except.error (wrap cause) = Except.error error ↔ _
      simp
  | ok value =>
      change Except.ok value = Except.error error ↔ _
      simp

/-! ## Passes that take the same steps -/

section

variable {ε α β α' β' γ δ : Type}

/-- Steps that look alike through `f` and `g`, and whatever follows them through `f'` and
`g'`, fail alike or succeed alike. -/
theorem map_bind_eq {f : α → γ} {g : β → γ} {f' : α' → δ} {g' : β' → δ} {first : Except ε α}
    {second : Except ε β} {next : α → Except ε α'} {other : β → Except ε β'}
    (hfirst : first.map f = second.map g)
    (hnext : ∀ result found, f result = g found →
      (next result).map f' = (other found).map g') :
    (first >>= next).map f' = (second >>= other).map g' := by
  cases first with
  | error error =>
      cases second with
      | error _ => cases hfirst; rfl
      | ok found => cases hfirst
  | ok result =>
      cases second with
      | error _ => cases hfirst
      | ok found => exact hnext result found (Except.ok.inj hfirst)

/-- The same step in both. -/
theorem map_bind_same {f : α' → δ} {g : β' → δ} {first : Except ε α} {next : α → Except ε α'}
    {other : α → Except ε β'} (hnext : ∀ result, (next result).map f = (other result).map g) :
    (first >>= next).map f = (first >>= other).map g := by
  cases first with
  | error error => rfl
  | ok result => exact hnext result

theorem exists_ok_of_map_eq {f : α → γ} {g : β → γ} {first : Except ε α} {second : Except ε β}
    {result : α} (hsame : first.map f = second.map g) (hfirst : first = .ok result) :
    ∃ found, second = .ok found ∧ f result = g found := by
  subst hfirst
  cases second with
  | error _ => cases hsame
  | ok found => exact ⟨found, rfl, Except.ok.inj hsame⟩

theorem map_mapM_eq {f : α → γ} {g : β → γ} {step : α' → Except ε α} {other : α' → Except ε β}
    {items : List α'}
    (hitems : ∀ item ∈ items, (step item).map f = (other item).map g) :
    (items.mapM step).map (List.map f) = (items.mapM other).map (List.map g) := by
  induction items with
  | nil => rfl
  | cons item rest ih =>
      rw [List.forall_mem_cons] at hitems
      rw [List.mapM_cons, List.mapM_cons]
      refine map_bind_eq hitems.1 fun result found hhere => ?_
      refine map_bind_eq (ih hitems.2) fun results others hlater => ?_
      exact congrArg Except.ok (by rw [List.map_cons, List.map_cons, hhere, hlater])

end

end ClassLang
