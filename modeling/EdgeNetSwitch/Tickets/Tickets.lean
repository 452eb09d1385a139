import Mathlib.Algebra.Order.Group.Multiset
import Mathlib.Data.Multiset.Range
import Mathlib.Data.UInt

/-!
# Tickets

A counter of 64 bits from which calls draw numbers, and a list to which each call appends its number
some time after. `done` is the list, and `hand` has the numbers of the calls in progress.
-/

namespace Tickets

/-- How many numbers have been drawn after `n`. -/
def age (next n : UInt64) : ℕ := (next - 1 - n).toNat

/-- The list counts up from zero, and the calls in progress have the numbers that follow. -/
structure InOrder (next : UInt64) (done : List UInt64) (hand : Multiset UInt64) : Prop where
  counts : done = (List.range done.length).map UInt64.ofNat
  follows : hand = (Multiset.range hand.card).map fun j => UInt64.ofNat (done.length + j)
  drawn : next = UInt64.ofNat (done.length + hand.card)
  card_le : hand.card ≤ 2 ^ 64

/-- What a step of a call does: `taken` is the number the call has in hand before the step, and `left`
the one it has after it. -/
inductive Move (next next' : UInt64) (done done' : List UInt64) (taken left : Multiset UInt64) :
    Prop where
  | draw (hn : next' = next + 1) (hd : done' = done) (ht : taken = 0) (hl : left = {next})
  | append (n : UInt64) (hn : next' = next) (hd : done' = done ++ [n]) (ht : taken = {n})
    (hl : left = 0)
  | stay (hn : next' = next) (hd : done' = done) (ht : taken = 0) (hl : left = 0)

variable {next next' n : UInt64} {done done' : List UInt64} {hand rest taken left : Multiset UInt64}

theorem inOrder_nil : InOrder 0 [] 0 := ⟨rfl, rfl, rfl, Nat.zero_le _⟩

theorem InOrder.getElem? (h : InOrder next done hand) {i : ℕ} (hi : done[i]? = some n) :
    n = UInt64.ofNat i := by
  rw [h.counts, List.getElem?_map, Option.map_eq_some_iff] at hi
  obtain ⟨j, hj, rfl⟩ := hi
  rw [List.getElem?_eq_some_iff] at hj
  obtain ⟨hlt, hj⟩ := hj
  rw [List.getElem_range] at hj
  rw [hj]

theorem InOrder.draw (h : InOrder next done hand) (hlt : hand.card < 2 ^ 64) :
    InOrder (next + 1) done (next ::ₘ hand) := by
  refine ⟨h.counts, ?_, ?_, ?_⟩
  · rw [Multiset.card_cons, Multiset.range_succ, Multiset.map_cons, ← h.drawn]
    exact congrArg _ h.follows
  · rw [Multiset.card_cons, h.drawn, ← Nat.add_assoc, UInt64.ofNat_add (done.length + hand.card) 1]
    rfl
  · rw [Multiset.card_cons]
    omega

/-- The calls in progress are as old as their place says. -/
theorem age_ofNat {l k j : ℕ} (hj : j ≤ k) (hk : k < 2 ^ 64) :
    age (UInt64.ofNat (l + (k + 1))) (UInt64.ofNat (l + j)) = k - j := by
  have hsub : UInt64.ofNat (l + (k + 1)) - 1 - UInt64.ofNat (l + j) = UInt64.ofNat (k - j) := by
    rw [show l + (k + 1) = (k - j) + (l + j) + 1 by omega, UInt64.ofNat_add, UInt64.ofNat_add (k - j)]
    show UInt64.ofNat (k - j) + UInt64.ofNat (l + j) + 1 - 1 - UInt64.ofNat (l + j) = _
    rw [UInt64.add_sub_cancel, UInt64.add_sub_cancel]
  rw [age, hsub, UInt64.toNat_ofNat']
  exact Nat.mod_eq_of_lt (by omega)

/-- The number of a call that appends has the place the list goes on with if and only if no call in
progress has an older one. -/
theorem InOrder.oldest_iff (h : InOrder next done (n ::ₘ rest)) :
    n = UInt64.ofNat done.length ↔ ∀ m ∈ rest, age next m ≤ age next n := by
  have hcard := h.card_le
  have hnext := h.drawn
  have hhand := h.follows
  rw [Multiset.card_cons] at hcard hnext hhand
  have hage : ∀ j, j ≤ rest.card →
      age next (UInt64.ofNat (done.length + j)) = rest.card - j := by
    intro j hj
    rw [hnext]
    exact age_ofNat hj (by omega)
  have hmem : ∀ m ∈ n ::ₘ rest, ∃ j ≤ rest.card, UInt64.ofNat (done.length + j) = m := by
    intro m hm
    rw [hhand, Multiset.mem_map] at hm
    obtain ⟨j, hj, rfl⟩ := hm
    exact ⟨j, by rw [Multiset.mem_range] at hj; omega, rfl⟩
  have hzero := hage 0 (Nat.zero_le _)
  rw [Nat.add_zero] at hzero
  constructor
  · intro hn m hm
    obtain ⟨j, hj, rfl⟩ := hmem m (Multiset.mem_cons_of_mem hm)
    rw [hn, hage j hj, hzero]
    omega
  · intro hold
    have hfirst : UInt64.ofNat done.length ∈ n ::ₘ rest := by
      rw [hhand, Multiset.mem_map]
      exact ⟨0, Multiset.mem_range.2 (Nat.succ_pos _), by rw [Nat.add_zero]⟩
    rcases Multiset.mem_cons.1 hfirst with heq | hrest
    · exact heq.symm
    · obtain ⟨j, hj, hn⟩ := hmem n (Multiset.mem_cons_self n rest)
      have hle := hold _ hrest
      rw [← hn, hage j hj, hzero] at hle
      have hj0 : j = 0 := by omega
      rw [← hn, hj0, Nat.add_zero]

theorem InOrder.append (h : InOrder next done (n ::ₘ rest))
    (hold : ∀ m ∈ rest, age next m ≤ age next n) : InOrder next (done ++ [n]) rest := by
  have hn := h.oldest_iff.2 hold
  have hnext := h.drawn
  have hcard := h.card_le
  have hhand := h.follows
  rw [Multiset.card_cons] at hcard hnext hhand
  refine ⟨?_, ?_, ?_, by omega⟩
  · rw [List.length_append, List.length_singleton, List.range_succ, List.map_append, ← h.counts,
      List.map_singleton, ← hn]
  · have hsplit : (Multiset.range (rest.card + 1)).map (fun j => UInt64.ofNat (done.length + j)) =
        n ::ₘ (Multiset.range rest.card).map fun j => UInt64.ofNat (done.length + 1 + j) := by
      have hrange : Multiset.range (rest.card + 1) =
          0 ::ₘ (Multiset.range rest.card).map Nat.succ := by
        show ((List.range (rest.card + 1) : List ℕ) : Multiset ℕ) = _
        rw [List.range_succ_eq_map]
        rfl
      rw [hrange, Multiset.map_cons, Multiset.map_map, Nat.add_zero, ← hn]
      congr 1
      refine Multiset.map_congr rfl fun j _ => ?_
      show UInt64.ofNat (done.length + (j + 1)) = _
      rw [Nat.add_right_comm done.length 1 j, Nat.add_assoc]
    rw [hsplit, Multiset.cons_inj_right] at hhand
    rw [List.length_append, List.length_singleton]
    exact hhand
  · rw [List.length_append, List.length_singleton, hnext]
    congr 1
    omega

/-- A step keeps the order if no number is drawn while all are in hand, and none is appended while an
older one is in hand. -/
theorem InOrder.move (h : InOrder next done (taken + rest))
    (hm : Move next next' done done' taken left)
    (hdraw : left ≠ 0 → (taken + rest).card < 2 ^ 64)
    (hold : ∀ n, taken = {n} → ∀ m ∈ taken + rest, age next m ≤ age next n) :
    InOrder next' done' (left + rest) := by
  cases hm with
  | draw hn hd ht hl =>
    subst hn hd ht hl
    rw [zero_add] at h
    rw [Multiset.singleton_add]
    refine h.draw ?_
    simpa using hdraw (Multiset.singleton_ne_zero _)
  | append n hn hd ht hl =>
    subst hn hd ht hl
    rw [Multiset.singleton_add] at h
    rw [zero_add]
    exact h.append fun m hmem => hold n rfl m (by simp [hmem])
  | stay hn hd ht hl =>
    subst hn hd ht hl
    exact h

end Tickets
