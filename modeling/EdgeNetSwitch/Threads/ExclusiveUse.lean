import EdgeNetSwitch.Threads.Proofs.ProgramProofs

/-!
# Objects used by one thread at a time

Some actions are steps of an operation in progress, which uses some objects. As long as an operation
begins only when its objects are not in use, every object has at most one pending action that uses it
(`doing`), and the actions of the other threads do not touch it.
-/

namespace Threads

variable {σ A ι : Type*} {c d : Config σ A} {a : A} {k : List A}

/-- `doing x` is the pending action that uses `x`, and there is one at most. -/
structure Tracks (uses : ι → A → Prop) [∀ x, DecidablePred (uses x)] (doing : ι → Option A)
    (c : Config σ A) : Prop where
  load_le : ∀ x, (c.load fun a => if uses x a then 1 else 0) ≤ 1
  doing_iff : ∀ x b, doing x = some b ↔ c.Pending (· = b) ∧ uses x b

/-- What the objects a step touches are doing after it, and the others still do. -/
def doingNext (uses : ι → A → Prop) [∀ x, DecidablePred (uses x)] (touches : ι → Prop)
    [DecidablePred touches] (k : List A) (doing : ι → Option A) (x : ι) : Option A :=
  if touches x then k.find? (uses x) else doing x

section Step

variable {uses : ι → A → Prop} [∀ x, DecidablePred (uses x)] {touches : ι → Prop}
  [DecidablePred touches] {doing : ι → Option A}

theorem Tracks.doing_eq_none_iff (hc : Tracks uses doing c) (x : ι) :
    doing x = none ↔ ¬ c.Pending (uses x) := by
  constructor
  · rintro hnone ⟨t, ht, b, hb, hx⟩
    have hsome := (hc.doing_iff x b).2 ⟨⟨t, ht, b, hb, rfl⟩, hx⟩
    rw [hnone] at hsome
    cases hsome
  · intro hnot
    cases hx : doing x with
    | none => rfl
    | some b =>
      obtain ⟨⟨t, ht, b', hb, rfl⟩, hu⟩ := (hc.doing_iff x b).1 hx
      exact absurd ⟨t, ht, b', hb, hu⟩ hnot

theorem Tracks.pending_iff (hc : Tracks uses doing c) {p : A → Prop} {x : ι}
    (hp : ∀ b, p b → uses x b) : c.Pending p ↔ ∃ b, doing x = some b ∧ p b := by
  constructor
  · rintro ⟨t, ht, b, hb, hpb⟩
    exact ⟨b, (hc.doing_iff x b).2 ⟨⟨t, ht, b, hb, rfl⟩, hp b hpb⟩, hpb⟩
  · rintro ⟨b, hb, hpb⟩
    obtain ⟨⟨t, ht, b', hb', rfl⟩, -⟩ := (hc.doing_iff x b).1 hb
    exact ⟨t, ht, b', hb', hpb⟩

theorem weight_ite_eq_countP (p : A → Prop) [DecidablePred p] (k : List A) :
    weight (fun b => if p b then 1 else 0) k = k.countP p := by
  induction k with
  | nil => rfl
  | cons b k ih =>
    rw [weight_cons, ih, List.countP_cons]
    by_cases hb : p b <;> simp [hb, Nat.add_comm]

theorem find?_eq_some_iff_of_countP_le {p : A → Prop} [DecidablePred p] (hk : k.countP p ≤ 1) (b : A) :
    k.find? p = some b ↔ b ∈ k ∧ p b := by
  induction k with
  | nil => simp
  | cons b' k ih =>
    rw [List.countP_cons] at hk
    by_cases hb : p b'
    · have hnone : ∀ x ∈ k, ¬ p x := by
        have hzero : k.countP p = 0 := by
          simp only [hb, decide_true, if_true] at hk
          omega
        simpa [List.countP_eq_zero] using hzero
      rw [List.find?_cons_of_pos (by simpa using hb), Option.some_inj, List.mem_cons]
      constructor
      · rintro rfl
        exact ⟨Or.inl rfl, hb⟩
      · rintro ⟨rfl | hmem, hp⟩
        · rfl
        · exact absurd hp (hnone b hmem)
    · rw [List.find?_cons_of_neg (by simpa using hb), ih (by omega), List.mem_cons]
      constructor
      · rintro ⟨hmem, hp⟩
        exact ⟨Or.inr hmem, hp⟩
      · rintro ⟨rfl | hmem, hp⟩
        · exact absurd hp hb
        · exact ⟨hmem, hp⟩

/-- A step of an operation touches the objects the operation uses, and an operation that begins those
that are not in use. -/
theorem Tracks.step (hc : Tracks uses doing c) (h : Replaces a k c d)
    (hk : ∀ x, touches x → k.countP (uses x) ≤ 1)
    (htouch : ∀ x, touches x → doing x = none ∨ doing x = some a)
    (hnot : ∀ x, ¬ touches x → ¬ uses x a ∧ ∀ b ∈ k, ¬ uses x b) :
    Tracks uses (doingNext uses touches k doing) d := by
  constructor
  · intro x
    obtain ⟨l, hlc, hld⟩ := h.load fun b => if uses x b then 1 else 0
    have hle := hc.load_le x
    rw [hlc] at hle
    rw [hld, weight_ite_eq_countP]
    by_cases hx : touches x
    · have hkle := hk x hx
      have hl : l = 0 := by
        rcases htouch x hx with hnone | hsome
        · by_contra hl
          refine (hc.doing_eq_none_iff x).1 hnone ?_
          by_contra hpending
          have hzero : (c.load fun b => if uses x b then 1 else 0) = 0 :=
            load_eq_zero fun t ht b hb => if_neg fun hu => hpending ⟨t, ht, b, hb, hu⟩
          omega
        · rw [if_pos ((hc.doing_iff x a).1 hsome).2] at hle
          omega
      omega
    · have hkzero : k.countP (uses x) = 0 :=
        List.countP_eq_zero.2 fun b hb => by simpa using (hnot x hx).2 b hb
      rw [if_neg (hnot x hx).1] at hle
      omega
  · intro x b
    by_cases hx : touches x
    · rw [doingNext, if_pos hx, find?_eq_some_iff_of_countP_le (hk x hx)]
      constructor
      · rintro ⟨hb, hu⟩
        exact ⟨h.pending_of_mem hb rfl, hu⟩
      · rintro ⟨hpending, hu⟩
        refine ⟨?_, hu⟩
        rcases htouch x hx with hnone | hsome
        · rcases h.pending_or hpending with ⟨b', hb, rfl⟩ | ⟨t, ht, b', hb, rfl⟩
          · exact hb
          · exact absurd ⟨t, ht, b', hb, hu⟩ ((hc.doing_eq_none_iff x).1 hnone)
        · obtain ⟨b', hb, rfl⟩ := h.token (hc.load_le x) (if_pos ((hc.doing_iff x a).1 hsome).2)
            hpending (by rintro _ rfl; simp [hu])
          exact hb
    · rw [doingNext, if_neg hx, hc.doing_iff]
      obtain ⟨ha, hnk⟩ := hnot x hx
      constructor
      · rintro ⟨hpending, hu⟩
        exact ⟨h.pending_mono (by rintro rfl; exact ha hu) hpending, hu⟩
      · rintro ⟨hpending, hu⟩
        rcases h.pending_or hpending with ⟨b', hb, rfl⟩ | hpending
        · exact absurd hu (hnk b' hb)
        · exact ⟨hpending, hu⟩

end Step

end Threads
