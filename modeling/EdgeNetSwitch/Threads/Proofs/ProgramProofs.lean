import EdgeNetSwitch.Threads.Program
import Mathlib.Algebra.Order.BigOperators.Group.List
import Mathlib.Algebra.Order.Group.Nat
import Mathlib.Data.List.Induction
import Mathlib.Tactic.Abel

/-!
# Proofs: rules for interleaved threads

Three ways to prove something of every reachable configuration: an invariant of the configuration
(`Reaches.invariant`), an invariant of every stack (`Step.stacks`), and a balance between two
quantities of the shared state and a weight of the pending actions (`Step.balance`).
-/

namespace Threads

open Relation

variable {σ A ω : Type*} {P : Program σ A ω} {φ : Config σ A → A → Prop} {c d : Config σ A} {a : A}

/-! ## Reachability -/

theorem Reaches.refl (c : Config σ A) : Reaches P φ c c := ReflTransGen.refl

theorem Reaches.tail {e : Config σ A} (h : Reaches P φ c d) (hs : Step P d a e) (hφ : φ d a) :
    Reaches P φ c e := ReflTransGen.tail h ⟨a, hs, hφ⟩

theorem Reaches.trans {e : Config σ A} (h : Reaches P φ c d) (h' : Reaches P φ d e) :
    Reaches P φ c e := ReflTransGen.trans h h'

/-- What holds at the start and is preserved by every step that meets `φ` holds in every
configuration reached by such steps. -/
theorem Reaches.invariant {I : Config σ A → Prop} (h : Reaches P φ c d) (h0 : I c)
    (hstep : ∀ c a d, I c → φ c a → Step P c a d → I d) : I d := by
  induction h with
  | refl => exact h0
  | tail _ hs ih => obtain ⟨a, hs, ha⟩ := hs; exact hstep _ a _ ih ha hs

/-- Every run has a trace. -/
theorem Reaches.trace (h : Reaches P φ c d) : ∃ tr, Trace P c tr d := by
  induction h with
  | refl => exact ⟨[], .refl c⟩
  | tail _ hs ih =>
    obtain ⟨tr, htr⟩ := ih
    obtain ⟨a, hs, -⟩ := hs
    exact ⟨_, htr.tail hs⟩

/-- What holds of the empty trace, and is preserved when a step is appended. -/
theorem Trace.invariant {I : List (σ × A) → Config σ A → Prop} {tr : List (σ × A)}
    (h : Trace P c tr d) (h0 : I [] c)
    (hstep : ∀ tr c a d, I tr c → Step P c a d → I (tr ++ [(c.shared, a)]) d) : I tr d := by
  induction h with
  | refl => exact h0
  | tail _ hs ih => exact hstep _ _ _ _ ih hs

/-- The first part of a trace is the trace of a run. -/
theorem Trace.before {tr₁ tr₂ : List (σ × A)} (h : Trace P c (tr₁ ++ tr₂) d) : ∃ e, Trace P c tr₁ e := by
  induction tr₂ using List.reverseRecOn generalizing d with
  | nil => exact ⟨d, by rwa [List.append_nil] at h⟩
  | append_singleton tr₂ x ih =>
    rw [← List.append_assoc] at h
    generalize heq : tr₁ ++ tr₂ ++ [x] = tr at h
    cases h with
    | refl => simp at heq
    | tail h hs =>
      obtain ⟨rfl, -⟩ := List.append_inj' heq rfl
      exact ih h

/-! ## Single steps -/

/-- Everything a step does. -/
theorem Step.spec (h : Step P c a d) :
    ∃ w k, P.exec a w c.shared = some (d.shared, k) ∧ Replaces a k c d := by
  cases h with
  | run pre post h => exact ⟨_, _, h, pre, _, post, rfl, rfl⟩

section Replaces

variable {k : List A} {p : A → Prop}

/-- The action done was pending. -/
theorem Replaces.pending (h : Replaces a k c d) : c.Pending (· = a) := by
  obtain ⟨pre, rest, post, hc, -⟩ := h
  exact ⟨a :: rest, by rw [hc]; simp, a, by simp, rfl⟩

/-- An action is pending after a step only if the step left it or it was pending before. -/
theorem Replaces.pending_or (h : Replaces a k c d) (hp : d.Pending p) :
    (∃ b ∈ k, p b) ∨ c.Pending p := by
  obtain ⟨pre, rest, post, hc, hd⟩ := h
  obtain ⟨t, ht, b, hb, hpb⟩ := hp
  rw [hd, List.mem_append, List.mem_cons] at ht
  rcases ht with ht | rfl | ht
  · exact Or.inr ⟨t, by rw [hc]; simp [ht], b, hb, hpb⟩
  · rcases List.mem_append.1 hb with hb | hb
    · exact Or.inl ⟨b, hb, hpb⟩
    · exact Or.inr ⟨a :: rest, by rw [hc]; simp, b, by simp [hb], hpb⟩
  · exact Or.inr ⟨t, by rw [hc]; simp [ht], b, hb, hpb⟩

/-- No pending action of a kind appears if the step leaves none. -/
theorem Replaces.not_pending (h : Replaces a k c d) (hk : ∀ b ∈ k, ¬ p b) (hc : ¬ c.Pending p) :
    ¬ d.Pending p := by
  intro hp
  rcases h.pending_or hp with ⟨b, hb, hpb⟩ | hp
  · exact hk b hb hpb
  · exact hc hp

/-- What a step leaves is pending. -/
theorem Replaces.pending_of_mem (h : Replaces a k c d) {b : A} (hb : b ∈ k) (hp : p b) :
    d.Pending p := by
  obtain ⟨pre, rest, post, -, hd⟩ := h
  exact ⟨k ++ rest, by rw [hd]; simp, b, List.mem_append_left _ hb, hp⟩

/-- An action stays pending until it is done. -/
theorem Replaces.pending_mono (h : Replaces a k c d) (ha : ¬ p a) (hp : c.Pending p) :
    d.Pending p := by
  obtain ⟨pre, rest, post, hc, hd⟩ := h
  obtain ⟨t, ht, b, hb, hpb⟩ := hp
  rw [hc, List.mem_append, List.mem_cons] at ht
  rcases ht with ht | rfl | ht
  · exact ⟨t, by rw [hd]; simp [ht], b, hb, hpb⟩
  · rcases List.mem_cons.1 hb with rfl | hb
    · exact absurd hpb ha
    · exact ⟨k ++ rest, by rw [hd]; simp, b, List.mem_append_right _ hb, hpb⟩
  · exact ⟨t, by rw [hd]; simp [ht], b, hb, hpb⟩

/-- A property of stacks is preserved when the stack that moves keeps it. -/
theorem Replaces.stacks {S : List A → Prop} (h : Replaces a k c d) (hS : c.Stacks S)
    (hk : ∀ rest, S (a :: rest) → S (k ++ rest)) : d.Stacks S := by
  obtain ⟨pre, rest, post, hc, hd⟩ := h
  intro t ht
  rw [hd, List.mem_append, List.mem_cons] at ht
  rcases ht with ht | rfl | ht
  · exact hS t (by rw [hc]; simp [ht])
  · exact hk rest (hS _ (by rw [hc]; simp))
  · exact hS t (by rw [hc]; simp [ht])

/-- Either the first thread moves, or one of the others. -/
theorem Replaces.cons {t : List A} {ts : List (List A)} (h : Replaces a k c d)
    (hc : c.threads = t :: ts) : (∃ rest, t = a :: rest ∧ d.threads = (k ++ rest) :: ts) ∨
      ∃ ts', d.threads = t :: ts' ∧ Replaces a k ⟨c.shared, ts⟩ ⟨d.shared, ts'⟩ := by
  obtain ⟨pre, rest, post, hpre, hd⟩ := h
  rw [hc] at hpre
  cases pre with
  | nil =>
    obtain ⟨rfl, rfl⟩ := List.cons.inj hpre
    exact Or.inl ⟨rest, rfl, hd⟩
  | cons x pre =>
    obtain ⟨rfl, rfl⟩ := List.cons.inj hpre
    exact Or.inr ⟨_, hd, pre, rest, post, rfl, rfl⟩

theorem Replaces.threads_ne_nil (h : Replaces a k c d) : c.threads ≠ [] := by
  obtain ⟨pre, rest, post, hc, -⟩ := h
  rw [hc]
  simp

/-- In a configuration of two threads it is one of them that moves. -/
theorem Replaces.two {t u : List A} (h : Replaces a k c d) (hc : c.threads = [t, u]) :
    (∃ rest, t = a :: rest ∧ d.threads = [k ++ rest, u]) ∨
      ∃ rest, u = a :: rest ∧ d.threads = [t, k ++ rest] := by
  rcases h.cons hc with ht | ⟨ts, hd, h⟩
  · exact Or.inl ht
  · rcases h.cons rfl with ⟨rest, hu, hts⟩ | ⟨ts', -, h⟩
    · exact Or.inr ⟨rest, hu, by rw [hd]; exact congrArg _ hts⟩
    · exact absurd rfl h.threads_ne_nil

/-- In a configuration of three threads it is one of them that moves. -/
theorem Replaces.three {t u v : List A} (h : Replaces a k c d) (hc : c.threads = [t, u, v]) :
    (∃ rest, t = a :: rest ∧ d.threads = [k ++ rest, u, v]) ∨
      (∃ rest, u = a :: rest ∧ d.threads = [t, k ++ rest, v]) ∨
      ∃ rest, v = a :: rest ∧ d.threads = [t, u, k ++ rest] := by
  rcases h.cons hc with ht | ⟨ts, hd, h⟩
  · exact Or.inl ht
  · rcases h.two rfl with ⟨rest, hu, hts⟩ | ⟨rest, hv, hts⟩
    · exact Or.inr (Or.inl ⟨rest, hu, by rw [hd]; exact congrArg _ hts⟩)
    · exact Or.inr (Or.inr ⟨rest, hv, by rw [hd]; exact congrArg _ hts⟩)

end Replaces

/-! ## Balances -/

section Balance

variable {M : Type*} [AddCommMonoid M] {w : A → M} {k : List A}

@[simp] theorem weight_nil (w : A → M) : weight w [] = 0 := rfl

@[simp] theorem weight_cons (w : A → M) (a : A) (t : List A) :
    weight w (a :: t) = w a + weight w t := by simp [weight]

@[simp] theorem weight_append (w : A → M) (t u : List A) :
    weight w (t ++ u) = weight w t + weight w u := by simp [weight]

theorem weight_eq_zero {t : List A} (h : ∀ a ∈ t, w a = 0) : weight w t = 0 := by
  induction t with
  | nil => rfl
  | cons a t ih =>
    rw [weight_cons, h a (by simp), ih fun b hb => h b (by simp [hb]), add_zero]

theorem load_eq_zero (h : ∀ t ∈ c.threads, ∀ a ∈ t, w a = 0) : c.load w = 0 := by
  unfold Config.load
  apply List.sum_eq_zero
  intro x hx
  obtain ⟨t, ht, rfl⟩ := List.mem_map.1 hx
  exact weight_eq_zero (h t ht)

/-- Only actions that satisfy `p` have a weight, and none is pending. -/
theorem load_eq_zero_of_not_pending {p : A → Prop} (hp : ¬ c.Pending p) (h : ∀ a, ¬ p a → w a = 0) :
    c.load w = 0 :=
  load_eq_zero fun t ht a ha => h a fun hpa => hp ⟨t, ht, a, ha, hpa⟩

/-- A sum of weights that `f` maps is the sum of what `f` maps them to. -/
theorem map_weight {N : Type*} [AddCommMonoid N] (f : M →+ N) (w : A → M) (t : List A) :
    f (weight w t) = weight (fun a => f (w a)) t := by
  unfold weight
  rw [map_list_sum, List.map_map]
  rfl

theorem map_load {N : Type*} [AddCommMonoid N] (f : M →+ N) (w : A → M) (c : Config σ A) :
    f (c.load w) = c.load fun a => f (w a) := by
  unfold Config.load
  rw [map_list_sum, List.map_map]
  congr 1
  exact List.map_congr_left fun t _ => map_weight f w t

theorem load_mk_cons (w : A → M) (s : σ) (t : List A) (ts : List (List A)) :
    (Config.mk s (t :: ts)).load w = weight w t + (Config.mk s ts).load w := by
  simp [Config.load]

theorem load_mk_append (w : A → M) (s : σ) (pre post : List (List A)) (t : List A) :
    (Config.mk s (pre ++ t :: post)).load w = weight w t + (Config.mk s (pre ++ post)).load w := by
  simp only [Config.load, List.map_append, List.map_cons, List.sum_append, List.sum_cons]
  abel

/-- A step takes the weight of the action done out of the load and puts in the weight of what it
leaves. -/
theorem Replaces.load (h : Replaces a k c d) (w : A → M) :
    ∃ x, c.load w = w a + x ∧ d.load w = weight w k + x := by
  obtain ⟨pre, rest, post, hc, hd⟩ := h
  obtain ⟨s, ts⟩ := c
  obtain ⟨s', ts'⟩ := d
  subst hc hd
  refine ⟨weight w rest + (Config.mk s (pre ++ post)).load w, ?_, ?_⟩
  · rw [load_mk_append, weight_cons, add_assoc]
  · rw [load_mk_append, weight_append, add_assoc]
    rfl

/-- If an action adds `δ` to `f`, and as much to `g` together with the weight of the pending
actions, then `f = g + load` is preserved. -/
theorem Replaces.balance {f g f' g' δ : M} (h : Replaces a k c d) (hc : f = g + c.load w)
    (hf : f' = f + δ) (hg : g' + weight w k = g + w a + δ) : f' = g' + d.load w := by
  obtain ⟨x, hlc, hld⟩ := h.load w
  rw [hf, hc, hlc, hld, ← add_assoc g', hg]
  abel

/-- A pending action with a weight counts. -/
theorem load_pos {w : A → ℕ} (hp : c.Pending fun a => w a ≠ 0) : 0 < c.load w := by
  obtain ⟨t, ht, a, ha, hne⟩ := hp
  have h1 : w a ≤ weight w t := List.single_le_sum (by simp) _ (List.mem_map_of_mem ha)
  have h2 : weight w t ≤ c.load w := List.single_le_sum (by simp) _ (List.mem_map_of_mem ht)
  omega

/-- When one pending action at most carries a token and the action done carries it, then afterwards
the token is with the actions left in its place. -/
theorem Replaces.token {w : A → ℕ} {p : A → Prop} (h : Replaces a k c d) (hw : c.load w ≤ 1)
    (ha : w a = 1) (hp : d.Pending p) (hpw : ∀ b, p b → w b ≠ 0) : ∃ b ∈ k, p b := by
  obtain ⟨pre, rest, post, hc, hd⟩ := h
  obtain ⟨s, ts⟩ := c
  obtain ⟨s', ts'⟩ := d
  subst hc hd
  rw [load_mk_append, weight_cons, ha] at hw
  have hrest : (Config.mk s (pre ++ rest :: post)).load w = 0 := by
    rw [load_mk_append]
    omega
  have hnot : ∀ t ∈ pre ++ rest :: post, ∀ b ∈ t, ¬ p b := by
    intro t ht b hb hpb
    have := load_pos (c := Config.mk s (pre ++ rest :: post)) ⟨t, ht, b, hb, hpw b hpb⟩
    omega
  obtain ⟨t, ht, b, hb, hpb⟩ := hp
  rw [List.mem_append, List.mem_cons] at ht
  rcases ht with ht | rfl | ht
  · exact absurd hpb (hnot t (by simp [ht]) b hb)
  · rcases List.mem_append.1 hb with hb | hb
    · exact ⟨b, hb, hpb⟩
    · exact absurd hpb (hnot rest (by simp) b hb)
  · exact absurd hpb (hnot t (by simp [ht]) b hb)

end Balance

/-! ## Schedules -/

theorem step_of_stepAt {c d : Config σ A} {i : ℕ} {o : ω} (h : stepAt P i o c = some d) :
    ∃ a, c.next i = some a ∧ Step P c a d := by
  obtain ⟨s, ts⟩ := c
  unfold stepAt at h
  split at h
  · rename_i a rest hi
    obtain ⟨⟨s', k⟩, he, rfl⟩ := Option.map_eq_some_iff.1 h
    have hi' : ts[i]? = some (a :: rest) := hi
    obtain ⟨hlt, hget⟩ := List.getElem?_eq_some_iff.1 hi'
    have hts : ts = ts.take i ++ (a :: rest) :: ts.drop (i + 1) := by
      rw [← hget, List.getElem_cons_drop, List.take_append_drop]
    have hset : ts.set i (k ++ rest) = ts.take i ++ (k ++ rest) :: ts.drop (i + 1) :=
      List.set_eq_take_append_cons_drop.trans (by rw [if_pos hlt])
    have hs : Step P ⟨s, ts.take i ++ (a :: rest) :: ts.drop (i + 1)⟩ a
        ⟨s', ts.take i ++ (k ++ rest) :: ts.drop (i + 1)⟩ := Step.run _ _ he
    rw [← hset, ← hts] at hs
    exact ⟨a, by simp [Config.next, hi'], hs⟩
  · cases h

/-- A run begins with a move of thread `i`. -/
theorem Reaches.move {c d e : Config σ A} (i : ℕ) (o : ω) (h : stepAt P i o c = some d)
    (hφ : ∀ a, c.next i = some a → φ c a) (hr : Reaches P φ d e) : Reaches P φ c e := by
  obtain ⟨a, ha, hs⟩ := step_of_stepAt h
  exact ((Reaches.refl c).tail hs (hφ a ha)).trans hr

/-- A schedule that can be played is a run. -/
theorem reaches_of_play [∀ c a, Decidable (φ c a)] {sched : List (ℕ × ω)} {c d : Config σ A}
    (h : play P φ sched c = some d) : Reaches P φ c d := by
  induction sched generalizing c with
  | nil => cases h; exact Reaches.refl _
  | cons x sched ih =>
    obtain ⟨i, o⟩ := x
    unfold play at h
    split at h
    · rename_i a ha
      split_ifs at h with hφ
      obtain ⟨e, he, hd⟩ := Option.bind_eq_some_iff.1 h
      refine Reaches.move i o he (fun b hb => ?_) (ih hd)
      rw [ha] at hb
      cases hb
      exact hφ
    · cases h

/-! ## A thread on its own -/

theorem Alone.refl (t : List A) (s : σ) : Alone P t s t s := ReflTransGen.refl

theorem Alone.move {s s' s'' : σ} {k rest t : List A} (o : ω) (h : P.exec a o s = some (s', k))
    (hr : Alone P (k ++ rest) s' t s'') : Alone P (a :: rest) s t s'' :=
  ReflTransGen.head ⟨a, o, rest, k, rfl, h, rfl⟩ hr

theorem Alone.trans {s s' s'' : σ} {t t' t'' : List A} (h : Alone P t s t' s')
    (h' : Alone P t' s' t'' s'') : Alone P t s t'' s'' := ReflTransGen.trans h h'

/-- What every action of a lone thread preserves, of the state and of the actions left. -/
theorem Alone.invariant {Inv : List A → σ → Prop} {s s' : σ} {t t' : List A}
    (h : Alone P t s t' s') (h0 : Inv t s)
    (hstep : ∀ a o rest s s' k, P.exec a o s = some (s', k) → Inv (a :: rest) s →
      Inv (k ++ rest) s') : Inv t' s' := by
  have key : ∀ x y : List A × σ, ReflTransGen
      (fun x y : List A × σ => ∃ a w rest k, x.1 = a :: rest ∧ P.exec a w x.2 = some (y.2, k) ∧
        y.1 = k ++ rest) x y → Inv x.1 x.2 → Inv y.1 y.2 := by
    intro x y hxy hx
    induction hxy with
    | refl => exact hx
    | tail _ hs ih =>
      obtain ⟨a, o, rest, k, hb, he, hc⟩ := hs
      rw [hc]
      exact hstep a o rest _ _ k he (hb ▸ ih)
  exact key (t, s) (t', s') h h0

/-- A thread on its own is a run of the whole. -/
theorem Alone.reaches {s s' : σ} {t t' : List A} (h : Alone P t s t' s') (pre post : List (List A)) :
    Reaches P anyStep ⟨s, pre ++ t :: post⟩ ⟨s', pre ++ t' :: post⟩ := by
  have key : ∀ x y : List A × σ, ReflTransGen
      (fun x y : List A × σ => ∃ a w rest k, x.1 = a :: rest ∧ P.exec a w x.2 = some (y.2, k) ∧
        y.1 = k ++ rest) x y →
      Reaches P anyStep ⟨x.2, pre ++ x.1 :: post⟩ ⟨y.2, pre ++ y.1 :: post⟩ := by
    intro x y hxy
    induction hxy with
    | refl => exact Reaches.refl _
    | tail _ hstep ih =>
      obtain ⟨a, o, rest, k, hx, he, hy⟩ := hstep
      rw [hy]
      rw [hx] at ih
      exact ih.tail (Step.run pre post he) trivial
  exact key (t, s) (t', s') h

section Solo

variable {I J K : σ → Prop} {t u : List A}

theorem Solo.nil (h : ∀ s, I s → J s) : Solo P I [] J :=
  fun s hs => ⟨s, h s hs, fun _ => Alone.refl _ _⟩

/-- The rule for one action: it is enough that what it leaves can be done. -/
theorem Solo.exec (h : ∀ s, I s → ∃ o s' k, P.exec a o s = some (s', k) ∧
    ∃ K, K s' ∧ Solo P K k J) : Solo P I [a] J := by
  intro s hs
  obtain ⟨o, s', k, he, K, hK, hk⟩ := h s hs
  obtain ⟨s'', hJ, hrun⟩ := hk s' hK
  exact ⟨s'', hJ, fun rest => Alone.move o he (hrun rest)⟩

theorem Solo.append (h : Solo P I t K) (h' : Solo P K u J) : Solo P I (t ++ u) J := by
  intro s hs
  obtain ⟨s', hK, hrun⟩ := h s hs
  obtain ⟨s'', hJ, hrun'⟩ := h' s' hK
  refine ⟨s'', hJ, fun rest => ?_⟩
  rw [List.append_assoc]
  exact (hrun (u ++ rest)).trans (hrun' rest)

theorem Solo.cons (h : Solo P I [a] K) (h' : Solo P K u J) : Solo P I (a :: u) J := h.append h'

/-- Actions that each keep `I` keep it together. -/
theorem Solo.all (h : ∀ a ∈ t, Solo P I [a] I) : Solo P I t I := by
  induction t with
  | nil => exact Solo.nil fun _ hs => hs
  | cons a t ih => exact (h a (by simp)).cons (ih fun b hb => h b (by simp [hb]))

theorem Solo.consequence {I' J' : σ → Prop} (h : Solo P I t J) (hI : ∀ s, I' s → I s)
    (hJ : ∀ s, J s → J' s) : Solo P I' t J' := by
  intro s hs
  obtain ⟨s', hJ', hrun⟩ := h s (hI s hs)
  exact ⟨s', hJ s' hJ', hrun⟩

/-- Actions that are never blocked, and leave actions of lower rank only, come to an end. -/
theorem Solo.of_rank {S : A → Prop} (rank : A → ℕ)
    (h : ∀ a s, S a → I s → ∃ o s' k, P.exec a o s = some (s', k) ∧ I s' ∧
      ∀ b ∈ k, S b ∧ rank b < rank a) (ht : ∀ a ∈ t, S a) : Solo P I t I := by
  have key : ∀ n a, rank a < n → S a → Solo P I [a] I := by
    intro n
    induction n with
    | zero => intro a ha; omega
    | succ n ih =>
      intro a ha hSa
      refine Solo.exec fun s hs => ?_
      obtain ⟨o, s', k, he, hI, hk⟩ := h a s hSa hs
      refine ⟨o, s', k, he, I, hI, Solo.all fun b hb => ih b ?_ (hk b hb).1⟩
      have := (hk b hb).2
      omega
  exact Solo.all fun a ha => key _ a (Nat.lt_succ_self _) (ht a ha)

/-- An invariant of the thread holds at its end. -/
theorem Solo.track (h : Solo P I t J) (Inv : List A → σ → Prop) (h0 : ∀ s, I s → Inv t s)
    (hstep : ∀ a o rest s s' k, P.exec a o s = some (s', k) → Inv (a :: rest) s →
      Inv (k ++ rest) s') : Solo P I t fun s => J s ∧ Inv [] s := by
  intro s hs
  obtain ⟨s', hJ, hrun⟩ := h s hs
  have halone := hrun []
  rw [List.append_nil] at halone
  exact ⟨s', ⟨hJ, halone.invariant (h0 s hs) hstep⟩, hrun⟩

/-- Thread `t` of a configuration can be run to its end. -/
theorem Solo.reaches {s : σ} (h : Solo P I t J) (hs : I s) (pre post : List (List A))
    (rest : List A) : ∃ s', J s' ∧
      Reaches P anyStep ⟨s, pre ++ (t ++ rest) :: post⟩ ⟨s', pre ++ rest :: post⟩ := by
  obtain ⟨s', hJ, hrun⟩ := h s hs
  exact ⟨s', hJ, (hrun rest).reaches pre post⟩

end Solo

end Threads
