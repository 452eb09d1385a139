import Mathlib.Data.List.Basic

/-!
# Pairs with a separator between them

A text that is made of pairs, with one separator between a pair and the next, is determined by what stands
at the places `3 * i`, `3 * i + 1` and `3 * i + 2` (`eq_join_iff`).
-/

namespace Pairs

variable {α : Type*} {sep : α} {text : List α} {pairs : List (α × α)}

/-- The pairs with a separator between one and the next. -/
def join (sep : α) (pairs : List (α × α)) : List α :=
  List.intercalate [sep] (pairs.map fun p => [p.1, p.2])

@[simp] theorem join_singleton (sep : α) (p : α × α) : join sep [p] = [p.1, p.2] := by simp [join]

@[simp] theorem join_cons_cons (sep : α) (p q : α × α) (pairs : List (α × α)) :
    join sep (p :: q :: pairs) = p.1 :: p.2 :: sep :: join sep (q :: pairs) := by simp [join]

/-- Nothing stands in the text but the separator and what the pairs are made of. -/
theorem mem_join {c : α} (h : c ∈ join sep pairs) : c = sep ∨ ∃ p ∈ pairs, c = p.1 ∨ c = p.2 := by
  induction pairs with
  | nil => exact absurd h (by simp [join])
  | cons p pairs ih =>
    cases pairs with
    | nil => exact .inr ⟨p, List.mem_cons_self, by simpa using h⟩
    | cons q pairs =>
      rw [join_cons_cons] at h
      simp only [List.mem_cons] at h
      rcases h with hfst | hsnd | hsep | hrest
      · exact .inr ⟨p, List.mem_cons_self, .inl hfst⟩
      · exact .inr ⟨p, List.mem_cons_self, .inr hsnd⟩
      · exact .inl hsep
      · rcases ih hrest with hsep | ⟨r, hr, hc⟩
        · exact .inl hsep
        · exact .inr ⟨r, List.mem_cons_of_mem _ hr, hc⟩

theorem length_join : (join sep pairs).length = pairs.length * 3 - 1 := by
  induction pairs with
  | nil => rfl
  | cons p pairs ih =>
    cases pairs with
    | nil => simp
    | cons q pairs =>
      simp only [join_cons_cons, List.length_cons] at ih ⊢
      omega

/-- What stands at the three places of pair `i`. -/
theorem getElem?_join (sep : α) {i : ℕ} (hi : i < pairs.length) :
    (join sep pairs)[i * 3]? = some pairs[i].1 ∧ (join sep pairs)[i * 3 + 1]? = some pairs[i].2 ∧
      (i + 1 < pairs.length → (join sep pairs)[i * 3 + 2]? = some sep) := by
  induction pairs generalizing i with
  | nil => exact absurd hi (by simp)
  | cons p pairs ih =>
    cases pairs with
    | nil =>
      have h0 : i = 0 := by simpa using hi
      subst h0
      simp
    | cons q pairs =>
      cases i with
      | zero => simp
      | succ i =>
        have hi' : i < (q :: pairs).length := by simpa using hi
        obtain ⟨hfst, hsnd, hsep⟩ := ih hi'
        have hoff : ∀ k, (join sep (p :: q :: pairs))[(i + 1) * 3 + k]? =
            (join sep (q :: pairs))[i * 3 + k]? := by
          intro k
          rw [join_cons_cons, show (i + 1) * 3 + k = i * 3 + k + 1 + 1 + 1 by omega]
          simp
        refine ⟨(hoff 0).trans hfst, (hoff 1).trans hsnd, fun hlt => (hoff 2).trans (hsep ?_)⟩
        simpa using hlt

/-- The text of the pairs is the only one of its length with these characters at these places. -/
theorem eq_join_iff : text = join sep pairs ↔ text.length = pairs.length * 3 - 1 ∧
    ∀ i (_ : i < pairs.length), text[i * 3]? = some pairs[i].1 ∧ text[i * 3 + 1]? = some pairs[i].2 ∧
      (i + 1 < pairs.length → text[i * 3 + 2]? = some sep) := by
  constructor
  · rintro rfl
    exact ⟨length_join, fun i hi => getElem?_join sep hi⟩
  · rintro ⟨hlength, hplaces⟩
    apply List.ext_getElem?
    intro j
    by_cases hj : j < pairs.length * 3 - 1
    · obtain ⟨i, k, hk, rfl⟩ : ∃ i k, k < 3 ∧ j = i * 3 + k := ⟨j / 3, j % 3, by omega, by omega⟩
      have hi : i < pairs.length := by omega
      obtain ⟨hfst, hsnd, hsep⟩ := hplaces i hi
      obtain ⟨hfst', hsnd', hsep'⟩ := getElem?_join sep hi
      match k with
      | 0 => exact hfst.trans hfst'.symm
      | 1 => exact hsnd.trans hsnd'.symm
      | 2 => rw [hsep (by omega), hsep' (by omega)]
    · rw [List.getElem?_eq_none (by omega), List.getElem?_eq_none (by rw [length_join]; omega)]

theorem map_join {β : Type*} (f : α → β) :
    (join sep pairs).map f = join (f sep) (pairs.map (Prod.map f f)) := by
  induction pairs with
  | nil => rfl
  | cons p pairs ih =>
    cases pairs with
    | nil => simp
    | cons q pairs =>
      simp only [join_cons_cons, List.map_cons] at ih ⊢
      rw [ih]
      rfl

end Pairs
