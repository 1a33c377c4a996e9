import ClassLang.Proofs.TypingExactness

/-!
# Lists compared item by item

What one pass makes of a list is compared with the list itself: both have the same
length, and items at the same place are related.
-/

namespace ClassLang

variable {ε α β γ δ : Type} {R : α → β → Prop}

theorem forall₂_imp_of_mem {S : α → β → Prop} {items : List α} {results : List β}
    (hrelated : List.Forall₂ R items results)
    (hitems : ∀ item ∈ items, ∀ result, R item result → S item result) :
    List.Forall₂ S items results := by
  induction hrelated with
  | nil => exact .nil
  | cons hhere _ ih =>
      rw [List.forall_mem_cons] at hitems
      exact .cons (hitems.1 _ hhere) (ih hitems.2)

theorem forall₂_of_map_eq {f : α → γ} {g : β → γ} {items : List α} {results : List β}
    (hmap : results.map g = items.map f) :
    List.Forall₂ (fun item result => g result = f item) items results := by
  have hequal : List.Forall₂ Eq (results.map g) (items.map f) := by
    rw [hmap, List.forall₂_eq_eq_eq]
  rw [List.forall₂_map_left_iff, List.forall₂_map_right_iff] at hequal
  exact hequal.flip

theorem forall₂_of_mapM {f : α → Except ε β} {items : List α} {results : List β}
    (hresults : items.mapM f = .ok results) :
    List.Forall₂ (fun item result => f item = .ok result) items results := by
  induction items generalizing results with
  | nil =>
      cases hresults
      exact .nil
  | cons item rest ih =>
      simp only [List.mapM_cons, bind_eq_ok_iff, pure_eq_ok_iff] at hresults
      rcases hresults with ⟨first, hfirst, others, hothers, rfl⟩
      exact .cons hfirst (ih hothers)

theorem mapM_of_forall₂ {f : α → Except ε β} {items : List α} {results : List β}
    (hresults : List.Forall₂ (fun item result => f item = .ok result) items results) :
    items.mapM f = .ok results := by
  induction hresults with
  | nil => rfl
  | cons hhere _ ih =>
      simp only [List.mapM_cons, bind_eq_ok_iff, pure_eq_ok_iff]
      exact ⟨_, hhere, _, ih, rfl⟩

theorem forall₂_flatMap {S : γ → δ → Prop} {f : α → List γ} {g : β → List δ} {items : List α}
    {results : List β} (hrelated : List.Forall₂ R items results)
    (hitems : ∀ item ∈ items, ∀ result, R item result → List.Forall₂ S (f item) (g result)) :
    List.Forall₂ S (items.flatMap f) (results.flatMap g) := by
  induction hrelated with
  | nil => exact .nil
  | cons hhere _ ih =>
      rw [List.forall_mem_cons] at hitems
      rw [List.flatMap_cons, List.flatMap_cons]
      exact List.rel_append (hitems.1 _ hhere) (ih hitems.2)

theorem exists_right_of_forall₂ {items : List α} {results : List β} {item : α}
    (hrelated : List.Forall₂ R items results) (hitem : item ∈ items) :
    ∃ result ∈ results, R item result := by
  induction hrelated with
  | nil => cases hitem
  | cons hhere _ ih =>
      rcases List.mem_cons.mp hitem with rfl | hlater
      · exact ⟨_, List.mem_cons_self, hhere⟩
      · rcases ih hlater with ⟨result, hresult, hrelates⟩
        exact ⟨result, List.mem_cons_of_mem _ hresult, hrelates⟩

end ClassLang
