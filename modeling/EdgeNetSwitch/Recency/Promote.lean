import Mathlib.Data.List.Dedup
import Mathlib.Data.List.Nodup

/-!
# Recency lists

A recency list holds keyed items, the most recently used one first. Using a key puts a new item for
it in front and drops the old one (`promote`). The first `c` items of such a list are what a table of
capacity `c` with least-recently-used replacement holds; the lemmas below say how that prefix changes
when a key is used, for a key inside the prefix and for one outside it.
-/

namespace Recency

variable {α β : Type*} [DecidableEq α]

/-- Use the key of `x`: `x` comes to the front, and any older item with its key goes. -/
def promote (k : β → α) (x : β) (l : List β) : List β := x :: l.filter fun y => k y ≠ k x

/-- The distinct elements of a history, the most recent one first. -/
def recent (h : List α) : List α := h.dedup.reverse

/-- The items that are left when a key is used. -/
def dropKey (k : β → α) (a : α) (l : List β) : List β := l.filter fun y => k y ≠ a

variable {k : β → α} {a : α} {x : β} {l : List β} {c : ℕ}

theorem promote_eq : promote k x l = x :: dropKey k (k x) l := rfl

theorem mem_dropKey {y : β} : y ∈ dropKey k a l ↔ y ∈ l ∧ k y ≠ a := by
  simp [dropKey]

theorem dropKey_eq_self (h : a ∉ l.map k) : dropKey k a l = l := by
  apply List.filter_eq_self.2
  intro y hy
  have : k y ≠ a := fun e => h (List.mem_map.2 ⟨y, hy, e⟩)
  simpa using this

theorem nodup_dropKey (h : (l.map k).Nodup) : ((dropKey k a l).map k).Nodup :=
  h.sublist (List.Sublist.map k List.filter_sublist)

theorem nodup_promote (h : (l.map k).Nodup) : ((promote k x l).map k).Nodup := by
  rw [promote_eq, List.map_cons, List.nodup_cons]
  refine ⟨?_, nodup_dropKey h⟩
  intro hx
  obtain ⟨y, hy, e⟩ := List.mem_map.1 hx
  exact (mem_dropKey.1 hy).2 e

/-- Using a key of the first `c + 1` items leaves the other items of that prefix. -/
theorem take_dropKey_of_mem (hnd : (l.map k).Nodup) (ha : a ∈ (l.take (c + 1)).map k) :
    (dropKey k a l).take c = dropKey k a (l.take (c + 1)) := by
  induction l generalizing c with
  | nil => simp at ha
  | cons y l ih =>
    rw [List.map_cons, List.nodup_cons] at hnd
    by_cases hy : k y = a
    · subst hy
      have htl : k y ∉ (l.take c).map k := fun h =>
        hnd.1 (List.map_subset k (List.take_subset c l) h)
      have h1 : dropKey k (k y) (y :: l) = l := by
        have h := dropKey_eq_self hnd.1
        simpa [dropKey] using h
      have h2 : dropKey k (k y) ((y :: l).take (c + 1)) = l.take c := by
        have h := dropKey_eq_self htl
        simpa [dropKey] using h
      rw [h1, h2]
    · cases c with
      | zero => simp at ha; exact absurd ha.symm hy
      | succ c =>
        have ha' : a ∈ (l.take (c + 1)).map k := by
          rw [List.take_succ_cons, List.map_cons, List.mem_cons] at ha
          exact ha.resolve_left fun e => hy e.symm
        have h := ih hnd.2 ha'
        unfold dropKey at h ⊢
        rw [List.take_succ_cons, List.filter_cons_of_pos (by simpa using hy),
          List.filter_cons_of_pos (by simpa using hy), List.take_succ_cons, h]

/-- Using a key outside the first `c` items leaves that prefix alone. -/
theorem take_dropKey_of_not_mem (ha : a ∉ (l.take c).map k) :
    (dropKey k a l).take c = l.take c := by
  induction l generalizing c with
  | nil => simp [dropKey]
  | cons y l ih =>
    cases c with
    | zero => simp
    | succ c =>
      rw [List.take_succ_cons, List.map_cons, List.mem_cons, not_or] at ha
      have h := ih ha.2
      unfold dropKey at h ⊢
      rw [List.filter_cons_of_pos (by simpa using fun e => ha.1 e.symm), List.take_succ_cons,
        List.take_succ_cons, h]

/-- The recency list of keys grows with the history by promotion. -/
theorem recent_append_singleton (h : List α) (a : α) :
    recent (h ++ [a]) = promote id a (recent h) := by
  unfold recent promote
  rw [List.filter_reverse, ← List.reverse_concat]
  congr 1
  induction h with
  | nil => simp
  | cons b h ih =>
    rw [List.cons_append]
    by_cases hb : b ∈ h
    · rw [List.dedup_cons_of_mem hb, List.dedup_cons_of_mem (by simp [hb]), ih]
    · rw [List.dedup_cons_of_notMem hb]
      by_cases hba : b = a
      · subst hba
        rw [List.dedup_cons_of_mem (by simp), ih, List.filter_cons_of_neg (by simp)]
      · rw [List.dedup_cons_of_notMem (by simp [hb, hba]), ih,
          List.filter_cons_of_pos (by simpa using hba), List.cons_append]

/-- Promotion commutes with reading off the keys. -/
theorem map_promote : (promote k x l).map k = promote id (k x) (l.map k) := by
  simp only [promote, List.map_cons, List.filter_map, id_eq]
  rfl

end Recency
