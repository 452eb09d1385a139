import EdgeNetSwitch.System.DescriptorOwnership
import EdgeNetSwitch.Ownership.Ownership
import EdgeNetSwitch.Threads.ExclusiveUse

/-!
# Proofs: ownership and the registry agree

What an object is doing (`doing`) replaces the stacks of the threads: a step is a change of the table and
of what the objects it touches are doing. Ownership then changes by the steps of `Ownership`, and the rest
of the invariant (`Kept`) is about the objects a step touches and the number it is about.
-/

namespace EdgeNetSwitch

namespace FdTable

open Threads FdAction Function

variable {s s' : FdTable} {a : FdAction} {k : List FdAction} {c d : Config FdTable FdAction}
  {doing : ℕ → Option FdAction} {i j x : ℕ} {fd : ℤ} {o : FileDescriptor} {op : ResetOf}

/-! ## Ownership without threads -/

/-- `Owns`, from what the object is doing. -/
def OwnsAt (s : FdTable) (doing : ℕ → Option FdAction) (i : ℕ) (fd : ℤ) : Prop :=
  0 ≤ fd ∧ (((∃ o, s.objects i = some o ∧ o.fd = fd) ∧ ¬ ∃ b, doing i = some b ∧ HasClosed i b) ∨
    ∃ b, doing i = some b ∧ Passed i fd b)

theorem uses_of_hasClosed {b : FdAction} (h : HasClosed i b) : Uses i b := by
  cases b with
  | assign i' op =>
    have hi : i' = i := h
    subst hi
    refine ⟨rfl, ?_⟩
    cases op <;> simp [touches]
  | _ => exact h.elim

theorem uses_of_passed {b : FdAction} (h : Passed i fd b) : Uses i b := by
  cases b with
  | unregisterFd i' op | close i' op | assign i' op =>
    obtain ⟨rfl, -⟩ := h
    refine ⟨rfl, ?_⟩
    cases op <;> simp [touches]
  | _ => exact h.elim

theorem owns_iff (hc : Tracks Uses doing c) : Owns c i fd ↔ OwnsAt c.shared doing i fd := by
  unfold Owns OwnsAt
  rw [hc.pending_iff (x := i) fun _ => uses_of_hasClosed,
    hc.pending_iff (x := i) fun _ => uses_of_passed]

theorem inUse_iff (hc : Tracks Uses doing c) : InUse c i ↔ doing i ≠ none := by
  rw [Ne, hc.doing_eq_none_iff, not_not]
  rfl

/-- The object is not inside one of its own operations. -/
def Idle (doing : ℕ → Option FdAction) (i : ℕ) : Prop := ∀ b, doing i = some b → object b ≠ some i

/-- What is known of an object in use from what it is doing. -/
def DoingOk (s : FdTable) : FdAction → Prop
  | .registerFd i fd _ => 0 ≤ fd ∧ ∃ o, s.objects i = some o ∧ o.fd = fd ∧ o.registry = true
  | .releaseFd i => ∃ o, s.objects i = some o ∧ ¬ s.Active o.fd
  | .unregisterFd i op => op ≠ .moveAssign i ∧ ∃ o, s.objects i = some o ∧ 0 ≤ o.fd ∧ o.fd ≠ op.fd
  | .close i op => op ≠ .moveAssign i ∧
    ∃ o, s.objects i = some o ∧ 0 ≤ o.fd ∧ o.fd ≠ op.fd ∧ ¬ s.Active o.fd
  | .assign i op => op ≠ .moveAssign i
  | .transfer i other => i ≠ other ∧ ∃ o, s.objects i = some o ∧ o.fd < 0
  | .dispose i => ∃ o, s.objects i = some o ∧ o.fd < 0
  | _ => True

/-- The invariant, from what the objects are doing. -/
structure Kept (s : FdTable) (doing : ℕ → Option FdAction) : Prop where
  isOpen : ∀ i fd, OwnsAt s doing i fd → s.descriptors fd ≠ none
  unique : Ownership.Exclusive (OwnsAt s doing)
  active : ∀ fd, s.Active fd → 0 ≤ fd ∧
    ∃ i o, s.objects i = some o ∧ o.fd = fd ∧ o.registry = true ∧ OwnsAt s doing i fd
  registered : ∀ i o, s.objects i = some o → 0 ≤ o.fd → o.registry = true → Idle doing i →
    s.Active o.fd
  doingOk : ∀ i b, doing i = some b → DoingOk s b

/-- The descriptors opened so far. -/
structure Openings (s : FdTable) : Prop where
  fresh : ∀ fd n, s.descriptors fd = some n → n < s.opened
  injective : ∀ fd fd' n, s.descriptors fd = some n → s.descriptors fd' = some n → fd = fd'
  closed : ∀ x ∈ s.closed, ∃ n < s.opened, x = some n ∧ ∀ fd, s.descriptors fd ≠ some n
  nodup : s.closed.Nodup

/-! ## One step -/

section Frame

variable {doing' : ℕ → Option FdAction}

theorem ownsAt_congr (ho : s'.objects x = s.objects x) (hd : doing' x = doing x) :
    OwnsAt s' doing' x fd ↔ OwnsAt s doing x fd := by
  unfold OwnsAt
  rw [ho, hd]

theorem Active.congr (h : s'.records fd = s.records fd) : s'.Active fd ↔ s.Active fd := by
  unfold Active
  rw [h]

/-- The object an action is a step of. -/
theorem exists_object {b : FdAction} (h : DoingOk s b) (hb : b.begins = false) :
    ∃ i, Uses i b ∧ ∀ s', (s'.objects i = s.objects i) →
      (∀ o, s.objects i = some o → ¬ HasClosed i b → ¬ s.Active o.fd → ¬ s'.Active o.fd) →
        DoingOk s' b := by
  cases b with
  | registerFd i fd t =>
    refine ⟨i, ⟨rfl, by simp [touches]⟩, fun s' ho _ => ?_⟩
    simpa only [DoingOk, ho] using h
  | releaseFd i =>
    refine ⟨i, ⟨rfl, by simp [touches]⟩, fun s' ho hactive => ?_⟩
    obtain ⟨o, hi, hnot⟩ := h
    exact ⟨o, ho.trans hi, hactive o hi id hnot⟩
  | unregisterFd i op =>
    refine ⟨i, ⟨rfl, by cases op <;> simp [touches]⟩, fun s' ho _ => ?_⟩
    simpa only [DoingOk, ho] using h
  | close i op =>
    refine ⟨i, ⟨rfl, by cases op <;> simp [touches]⟩, fun s' ho hactive => ?_⟩
    obtain ⟨hop, o, hi, hle, hne, hnot⟩ := h
    exact ⟨hop, o, ho.trans hi, hle, hne, hactive o hi id hnot⟩
  | assign i op => exact ⟨i, ⟨rfl, by cases op <;> simp [touches]⟩, fun s' _ _ => h⟩
  | transfer i other =>
    refine ⟨i, ⟨rfl, by simp [touches]⟩, fun s' ho _ => ?_⟩
    simpa only [DoingOk, ho] using h
  | dispose i =>
    refine ⟨i, ⟨rfl, by simp [touches]⟩, fun s' ho _ => ?_⟩
    simpa only [DoingOk, ho] using h
  | _ => cases hb

/-- An object outside of its own operations owns the number it holds. -/
theorem ownsAt_idle (h : Idle doing x) :
    OwnsAt s doing x fd ↔ 0 ≤ fd ∧ ∃ o, s.objects x = some o ∧ o.fd = fd := by
  have hclosed : ¬ ∃ b, doing x = some b ∧ HasClosed x b := by
    rintro ⟨b, hb, hx⟩
    cases b <;> first | exact hx.elim | exact h _ hb (congrArg some hx)
  have hpassed : ¬ ∃ b, doing x = some b ∧ Passed x fd b := by
    rintro ⟨b, hb, hx⟩
    cases b <;> first | exact hx.elim | exact h _ hb (congrArg some hx.1)
  simp [OwnsAt, hclosed, hpassed]

/-- A step that leaves alone the objects outside of `T`, what they own, and the records of the numbers
that those in `T` do not own. -/
theorem Kept.step {T : ℕ → Prop} (hs : Kept s doing)
    (hobjects : ∀ x, ¬ T x → s'.objects x = s.objects x)
    (hsame : ∀ x, ¬ T x → ∀ m, OwnsAt s' doing' x m ↔ OwnsAt s doing x m)
    (hidle : ∀ x, ¬ T x → Idle doing' x → Idle doing x)
    (hdoing : ∀ x b, doing' x = some b → DoingOk s' b ∨
      (doing x = some b ∧ ∀ y, Uses y b → doing y = some b ∧ ¬ T y) ∧ b.begins = false)
    (hrecords : ∀ m, (∀ x, T x → ¬ OwnsAt s doing x m) → s'.records m = s.records m)
    (hown : Ownership.Step (OwnsAt s doing) (OwnsAt s' doing'))
    (hopen : ∀ x m, OwnsAt s' doing' x m → s'.descriptors m ≠ none)
    (hactive : ∀ x m, T x → OwnsAt s doing x m → s'.Active m →
      ∃ i o, s'.objects i = some o ∧ o.fd = m ∧ o.registry = true ∧ OwnsAt s' doing' i m)
    (hregistered : ∀ x o, T x → s'.objects x = some o → 0 ≤ o.fd → o.registry = true →
      Idle doing' x → s'.Active o.fd) : Kept s' doing' := by
  -- the numbers of an object outside of `T` keep their records
  have hkept : ∀ x m, ¬ T x → OwnsAt s doing x m → (s'.Active m ↔ s.Active m) := by
    intro x m hx hm
    refine Active.congr (hrecords m fun y hy hym => hx ?_)
    rw [hs.unique x y m hm hym]
    exact hy
  refine ⟨hopen, hown.exclusive hs.unique, fun m hm => ?_, fun x o ho hle hreg hx' => ?_,
    fun x b hb => ?_⟩
  · by_cases htouch : ∃ x, T x ∧ OwnsAt s doing x m
    · obtain ⟨x, hx, hxm⟩ := htouch
      exact ⟨hxm.1, hactive x m hx hxm hm⟩
    · have hnot : ∀ x, T x → ¬ OwnsAt s doing x m := fun x hx hxm => htouch ⟨x, hx, hxm⟩
      obtain ⟨hle, i, o, ho, hfd, hreg, hi⟩ := hs.active m ((Active.congr (hrecords m hnot)).1 hm)
      have hiT : ¬ T i := fun hiT => hnot i hiT hi
      exact ⟨hle, i, o, (hobjects i hiT).trans ho, hfd, hreg, (hsame i hiT m).2 hi⟩
  · by_cases hx : T x
    · exact hregistered x o hx ho hle hreg hx'
    · rw [hobjects x hx] at ho
      have hown : OwnsAt s doing x o.fd := (ownsAt_idle (hidle x hx hx')).2 ⟨hle, o, ho, rfl⟩
      exact (hkept x o.fd hx hown).2 (hs.registered x o ho hle hreg (hidle x hx hx'))
  · rcases hdoing x b hb with hok | ⟨⟨hx, hall⟩, hbegins⟩
    · exact hok
    · obtain ⟨i, hi, hcongr⟩ := exists_object (hs.doingOk x b hx) hbegins
      obtain ⟨hib, hiT⟩ := hall i hi
      refine hcongr s' (hobjects i hiT) fun o ho hnot hactive hactive' => ?_
      by_cases hle : 0 ≤ o.fd
      · have hown : OwnsAt s doing i o.fd := by
          refine ⟨hle, Or.inl ⟨⟨o, ho, rfl⟩, ?_⟩⟩
          rintro ⟨b', hb', hclosed⟩
          rw [hib] at hb'
          cases hb'
          exact hnot hclosed
        exact hactive ((hkept i o.fd hiT hown).1 hactive')
      · have hfree : ∀ y, T y → ¬ OwnsAt s doing y o.fd := fun y _ hy => hle hy.1
        exact hactive ((Active.congr (hrecords o.fd hfree)).1 hactive')

end Frame

/-- A step may be taken: an operation begins with objects that are not in use, and the objects of one in
progress are in use by it. -/
structure Ready (doing : ℕ → Option FdAction) (a : FdAction) : Prop where
  shared : ∀ x b, doing x = some b → Uses x b ∧ ∀ y, Uses y b → doing y = some b
  idle : a.begins = true → ∀ x, a.touches x = true → doing x = none
  busy : a.begins = false → ∀ x, a.touches x = true → doing x = some a

theorem Ready.of_tracks (hc : Tracks Uses doing c) (ha : c.Pending (· = a)) (hφ : Assumed c a) :
    Ready doing a where
  shared x b hb := by
    obtain ⟨hp, hu⟩ := (hc.doing_iff x b).1 hb
    exact ⟨hu, fun y hy => (hc.doing_iff y b).2 ⟨hp, hy⟩⟩
  idle hbegins x hx := by
    by_contra hne
    exact hφ.1 hbegins x hx ((inUse_iff hc).2 hne)
  busy hbegins x hx := (hc.doing_iff x a).2 ⟨ha, hbegins, hx⟩

/-- What the objects are doing after a step. -/
abbrev next (a : FdAction) (k : List FdAction) (doing : ℕ → Option FdAction) : ℕ → Option FdAction :=
  doingNext Uses (fun x => a.touches x = true) k doing

theorem next_of_touches (h : a.touches x = true) : next a k doing x = k.find? (Uses x) := if_pos h

theorem next_of_not_touches (h : ¬ a.touches x = true) : next a k doing x = doing x := if_neg h

theorem Ready.idle_of_touches (hr : Ready doing a) (ht : a.touches x = true) (ha : object a ≠ some x) :
    Idle doing x := by
  intro b hb
  cases hbegins : a.begins with
  | true =>
    rw [hr.idle hbegins x ht] at hb
    cases hb
  | false =>
    rw [hr.busy hbegins x ht] at hb
    cases hb
    exact ha

/-- A step changes the objects in `T` only. The others it does not touch, or they are the other object of
a move. -/
structure Changes (T : ℕ → Prop) (a : FdAction) (k : List FdAction) (s s' : FdTable) : Prop where
  touched : ∀ x, T x → a.touches x = true
  other : ∀ x, a.touches x = true → ¬ T x → object a ≠ some x ∧ ∀ b ∈ k, object b ≠ some x
  objects : ∀ x, ¬ T x → s'.objects x = s.objects x

section Changes

variable {T : ℕ → Prop}

theorem Changes.idle (hT : Changes T a k s s') (hr : Ready doing a) (hx : ¬ T x)
    (ht : a.touches x = true) : Idle doing x ∧ Idle (next a k doing) x := by
  obtain ⟨ha, hk⟩ := hT.other x ht hx
  refine ⟨hr.idle_of_touches ht ha, fun b hb => ?_⟩
  rw [next_of_touches ht] at hb
  exact hk b (List.mem_of_find?_eq_some hb)

/-- The other objects own what they owned. -/
theorem Changes.ownsAt_iff (hT : Changes T a k s s') (hr : Ready doing a) (hx : ¬ T x) :
    OwnsAt s' (next a k doing) x fd ↔ OwnsAt s doing x fd := by
  by_cases ht : a.touches x = true
  · rw [ownsAt_idle (hT.idle hr hx ht).1, ownsAt_idle (hT.idle hr hx ht).2, hT.objects x hx]
  · exact ownsAt_congr (hT.objects x hx) (next_of_not_touches ht)

theorem Changes.kept (hT : Changes T a k s s') (hr : Ready doing a) (hs : Kept s doing)
    (hrecords : ∀ m, (∀ x, T x → ¬ OwnsAt s doing x m) → s'.records m = s.records m)
    (hown : Ownership.Step (OwnsAt s doing) (OwnsAt s' (next a k doing)))
    (hopen : ∀ x m, OwnsAt s' (next a k doing) x m → s'.descriptors m ≠ none)
    (hactive : ∀ x m, T x → OwnsAt s doing x m → s'.Active m →
      ∃ i o, s'.objects i = some o ∧ o.fd = m ∧ o.registry = true ∧ OwnsAt s' (next a k doing) i m)
    (hregistered : ∀ x o, T x → s'.objects x = some o → 0 ≤ o.fd → o.registry = true →
      Idle (next a k doing) x → s'.Active o.fd)
    (hdoingOk : ∀ b ∈ k, DoingOk s' b) : Kept s' (next a k doing) := by
  refine hs.step hT.objects (fun x hx m => hT.ownsAt_iff hr hx) (fun x hx hx' => ?_) (fun x b hb => ?_)
    hrecords hown hopen hactive hregistered
  · by_cases ht : a.touches x = true
    · exact (hT.idle hr hx ht).1
    · intro b hb
      exact hx' b ((next_of_not_touches ht).trans hb)
  · by_cases ht : a.touches x = true
    · rw [next_of_touches ht] at hb
      exact Or.inl (hdoingOk b (List.mem_of_find?_eq_some hb))
    · rw [next_of_not_touches ht] at hb
      obtain ⟨hu, hall⟩ := hr.shared x b hb
      refine Or.inr ⟨⟨hb, fun y hy => ⟨hall y hy, fun hyT => ht ?_⟩⟩, hu.1⟩
      cases hbegins : a.begins with
      | true =>
        have hnone := hr.idle hbegins y (hT.touched y hyT)
        rw [hall y hy] at hnone
        cases hnone
      | false =>
        have hsome := hr.busy hbegins y (hT.touched y hyT)
        rw [hall y hy] at hsome
        cases hsome
        exact hu.2

end Changes

/-- A step of an operation of the object `i`. -/
theorem changes_one (hti : a.touches i = true) (ha : object a = none ∨ object a = some i)
    (hk : ∀ b ∈ k, object b = some i) (hobjects : ∀ x, x ≠ i → s'.objects x = s.objects x) :
    Changes (· = i) a k s s' := by
  refine ⟨fun x hx => hx ▸ hti, fun x _ hx => ⟨fun h => ?_, fun b hb h => ?_⟩, hobjects⟩
  · rcases ha with ha | ha <;> rw [ha] at h <;> cases h
    exact hx rfl
  · rw [hk b hb] at h
    cases h
    exact hx rfl

/-- If the object does not gain anything, nobody does. -/
theorem Changes.owned (hT : Changes (· = i) a k s s') (hr : Ready doing a)
    (hi : ∀ m, OwnsAt s' (next a k doing) i m → OwnsAt s doing i m) (x : ℕ) (m : ℤ)
    (hm : OwnsAt s' (next a k doing) x m) : OwnsAt s doing x m := by
  by_cases hx : x = i
  · rw [hx] at hm ⊢
    exact hi m hm
  · exact (hT.ownsAt_iff hr hx).1 hm

/-! ## What an object owns -/

theorem ownsAt_none (ho : s.objects x = none) (hd : doing x = none) : ¬ OwnsAt s doing x fd := by
  simp [OwnsAt, ho, hd]

theorem ownsAt_holds (ho : s.objects x = some o)
    (hd : ∀ b, doing x = some b → ¬ HasClosed x b ∧ ∀ m, ¬ Passed x m b) :
    OwnsAt s doing x fd ↔ 0 ≤ fd ∧ o.fd = fd := by
  have hclosed : ¬ ∃ b, doing x = some b ∧ HasClosed x b := by
    rintro ⟨b, hb, h⟩
    exact (hd b hb).1 h
  have hpassed : ¬ ∃ b, doing x = some b ∧ Passed x fd b := by
    rintro ⟨b, hb, h⟩
    exact (hd b hb).2 fd h
  simp [OwnsAt, ho, hclosed, hpassed]

/-- An object whose number has yet to be closed owns the number passed to it as well. -/
theorem ownsAt_closing {b : FdAction} (ho : s.objects x = some o) (hd : doing x = some b)
    (hb : b = .unregisterFd x op ∨ b = .close x op) :
    OwnsAt s doing x fd ↔ 0 ≤ fd ∧ (o.fd = fd ∨ op.fd = fd) := by
  rcases hb with rfl | rfl <;> simp [OwnsAt, ho, hd, HasClosed, Passed]

theorem ownsAt_closed (hd : doing x = some (.assign x op)) :
    OwnsAt s doing x fd ↔ 0 ≤ fd ∧ op.fd = fd := by
  simp [OwnsAt, hd, HasClosed, Passed]

/-! ## The steps outside of the objects -/

theorem Kept.openFd (hs : Kept s doing) (hr : Ready doing (.openFd fd)) :
    Kept { s with
      descriptors := update s.descriptors fd (some s.opened)
      opened := s.opened + 1 } (next (.openFd fd) [] doing) := by
  have hT : Changes (fun _ => False) (.openFd fd) [] s { s with
      descriptors := update s.descriptors fd (some s.opened)
      opened := s.opened + 1 } := ⟨nofun, by simp [touches], fun _ _ => rfl⟩
  refine hT.kept hr hs (fun _ _ => rfl) (.idle fun x m => hT.ownsAt_iff hr id) (fun x m hm => ?_)
    nofun nofun nofun
  have hopen := hs.isOpen x m ((hT.ownsAt_iff hr id).1 hm)
  by_cases h : m = fd
  · simp [h]
  · simpa [h] using hopen

theorem Kept.closeFd (hs : Kept s doing) (hr : Ready doing (.closeFd fd))
    (hfree : ∀ x, ¬ OwnsAt s doing x fd) :
    Kept { s with descriptors := update s.descriptors fd none } (next (.closeFd fd) [] doing) := by
  have hT : Changes (fun _ => False) (.closeFd fd) [] s
      { s with descriptors := update s.descriptors fd none } :=
    ⟨nofun, by simp [touches], fun _ _ => rfl⟩
  refine hT.kept hr hs (fun _ _ => rfl) (.idle fun x m => hT.ownsAt_iff hr id) (fun x m hm => ?_)
    nofun nofun nofun
  have hown := (hT.ownsAt_iff hr id).1 hm
  have hne : m ≠ fd := by
    rintro rfl
    exact hfree x hown
  simpa [hne] using hs.isOpen x m hown

/-! ## The steps that change what one object owns -/

theorem setObject_self (i : ℕ) (v : Option FileDescriptor) : (s.setObject i v).objects i = v :=
  update_self ..

theorem setObject_of_ne (h : x ≠ i) (v : Option FileDescriptor) :
    (s.setObject i v).objects x = s.objects x := update_of_ne h ..

section One

variable {R R' : ℕ → ℤ → Prop}

theorem step_idle (hi : ∀ m, R' i m ↔ R i m) (hx : ∀ x, x ≠ i → ∀ m, R' x m ↔ R x m) :
    Ownership.Step R R' := by
  refine .idle fun x m => ?_
  by_cases h : x = i
  · rw [h]
    exact hi m
  · exact hx x h m

/-- An object is given a number to own. -/
theorem step_acquire (hfree : 0 ≤ fd → ∀ x, ¬ R x fd)
    (hi : ∀ m, R' i m ↔ R i m ∨ (0 ≤ m ∧ fd = m)) (hx : ∀ x, x ≠ i → ∀ m, R' x m ↔ R x m) :
    Ownership.Step R R' := by
  by_cases hle : 0 ≤ fd
  · refine .acquire i fd (hfree hle) fun x m => ?_
    by_cases h : x = i
    · subst h
      rw [hi]
      constructor
      · rintro (h | ⟨-, rfl⟩)
        · exact Or.inl h
        · exact Or.inr ⟨rfl, rfl⟩
      · rintro (h | ⟨-, rfl⟩)
        · exact Or.inl h
        · exact Or.inr ⟨hle, rfl⟩
    · rw [hx x h]
      simp [h]
  · refine step_idle (fun m => ?_) hx
    rw [hi]
    constructor
    · rintro (h | ⟨hm, rfl⟩)
      · exact h
      · exact absurd hm hle
    · exact Or.inl

/-- An object gives a number up. -/
theorem step_drop (hi : ∀ m, R' i m ↔ R i m ∧ m ≠ fd) (hx : ∀ x, x ≠ i → ∀ m, R' x m ↔ R x m) :
    Ownership.Step R R' := by
  refine .drop i fd fun x m => ?_
  by_cases h : x = i
  · rw [h, hi]
    simp
  · rw [hx x h]
    simp [h]

end One

theorem Kept.construct {registry : Bool} {t : FdType} (hs : Kept s doing)
    (hr : Ready doing (.construct i fd registry t)) (hi : s.objects i = none)
    (hpass : 0 ≤ fd → s.descriptors fd ≠ none ∧ ∀ x, ¬ OwnsAt s doing x fd) :
    Kept (s.setObject i (some { fd, registry, fd_type := t }))
      (next (.construct i fd registry t)
        (if registry ∧ 0 ≤ fd then [.registerFd i fd t] else []) doing) := by
  set k : List FdAction := if registry ∧ 0 ≤ fd then [.registerFd i fd t] else [] with hk
  have hmem : ∀ b ∈ k, b = .registerFd i fd t ∧ 0 ≤ fd ∧ registry = true := by
    intro b hb
    rw [hk] at hb
    split_ifs at hb with h
    · exact ⟨List.mem_singleton.1 hb, h.2, h.1⟩
    · cases hb
  have hti : touches (.construct i fd registry t) i = true := by simp [touches]
  have hT : Changes (· = i) (.construct i fd registry t) k s
      (s.setObject i (some { fd, registry, fd_type := t })) :=
    changes_one hti (Or.inl rfl) (fun b hb => by rw [(hmem b hb).1]; rfl)
      fun x hx => setObject_of_ne hx _
  have hbefore : ∀ m, ¬ OwnsAt s doing i m := fun m => ownsAt_none hi (hr.idle rfl i hti)
  have hafter : ∀ m, OwnsAt (s.setObject i (some { fd, registry, fd_type := t }))
      (next (.construct i fd registry t) k doing) i m ↔ 0 ≤ m ∧ fd = m := by
    intro m
    refine ownsAt_holds (setObject_self i _) fun b hb => ?_
    rw [next_of_touches hti] at hb
    rw [(hmem b (List.mem_of_find?_eq_some hb)).1]
    exact ⟨id, fun _ => id⟩
  refine hT.kept hr hs (fun _ _ => rfl) (step_acquire (fun hle => (hpass hle).2)
    (fun m => ?_) fun x hx m => hT.ownsAt_iff hr hx) (fun x m hm => ?_) (fun x m hx hm => ?_)
    (fun x o hx ho hle hreg hidle => ?_) fun b hb => ?_
  · rw [hafter]
    simp [hbefore]
  · by_cases hx : x = i
    · subst hx
      obtain ⟨hle, rfl⟩ := (hafter m).1 hm
      exact (hpass hle).1
    · exact hs.isOpen x m ((hT.ownsAt_iff hr hx).1 hm)
  · subst hx
    exact absurd hm (hbefore m)
  · -- a bound object with a number is about to register it
    subst hx
    rw [setObject_self] at ho
    cases ho
    have hnext : next (.construct x fd registry t) k doing x = some (.registerFd x fd t) := by
      rw [next_of_touches hti, hk, if_pos ⟨hreg, hle⟩]
      simp [Uses, touches, begins]
    exact absurd rfl (hidle _ hnext)
  · obtain ⟨rfl, hle, hreg⟩ := hmem b hb
    exact ⟨hle, _, setObject_self i _, rfl, hreg⟩

theorem Kept.registerFd {t : FdType} (hs : Kept s doing) (hr : Ready doing (.registerFd i fd t)) :
    Kept { s with records := s.records.registerFd fd .active t } (next (.registerFd i fd t) [] doing) := by
  have hti : touches (.registerFd i fd t) i = true := by simp [touches]
  have hdoing : doing i = some (.registerFd i fd t) := hr.busy rfl i hti
  obtain ⟨hle, o, ho, rfl, hreg⟩ := hs.doingOk i _ hdoing
  have hT : Changes (· = i) (.registerFd i o.fd t) [] s
      { s with records := s.records.registerFd o.fd .active t } :=
    changes_one hti (Or.inr rfl) nofun fun _ _ => rfl
  have hbefore : ∀ m, OwnsAt s doing i m ↔ 0 ≤ m ∧ o.fd = m := by
    refine fun m => ownsAt_holds ho fun b hb => ?_
    rw [hdoing] at hb
    cases hb
    exact ⟨id, fun _ => id⟩
  have hafter : ∀ m, OwnsAt { s with records := s.records.registerFd o.fd .active t }
      (next (.registerFd i o.fd t) [] doing) i m ↔ OwnsAt s doing i m := by
    intro m
    rw [hbefore]
    refine ownsAt_holds ho fun b hb => ?_
    rw [next_of_touches hti] at hb
    cases hb
  refine hT.kept hr hs (fun m hm => update_of_ne ?_ _ _)
    (step_idle hafter fun x hx m => hT.ownsAt_iff hr hx)
    (fun x m hm => hs.isOpen x m (hT.owned hr (fun m => (hafter m).1) x m hm)) (fun x m hx hm _ => ?_)
    (fun x o' hx ho' _ _ _ => ?_) nofun
  · rintro rfl
    exact hm i rfl ((hbefore _).2 ⟨hle, rfl⟩)
  · subst hx
    exact ⟨x, o, ho, ((hbefore m).1 hm).2, hreg, (hafter m).2 hm⟩
  · subst hx
    cases ho.symm.trans ho'
    exact ⟨_, update_self .., rfl⟩

/-! ## Reset -/

theorem object_of_begins (h : a.begins = true) : object a = none := by
  cases a <;> first | rfl | cases h

/-- The first step of a `reset`, one case for each branch. -/
inductive BeginReset (s : FdTable) (i : ℕ) (o : FileDescriptor) (op : ResetOf) :
    FdTable → FdAction → Prop where
  | unregister (hle : 0 ≤ o.fd) (hreg : o.registry = true) :
    BeginReset s i o op { s with records := s.records.updateState o.fd .closed } (.unregisterFd i op)
  | close (hle : 0 ≤ o.fd) (hreg : o.registry = false) : BeginReset s i o op s (.close i op)
  | assign (hlt : o.fd < 0) : BeginReset s i o op s (.assign i op)

theorem beginReset_cases (s : FdTable) (i : ℕ) (o : FileDescriptor) (op : ResetOf) :
    ∃ b, (s.beginReset i o op).2 = [b] ∧ BeginReset s i o op (s.beginReset i o op).1 b := by
  unfold beginReset
  split_ifs with hle hreg
  · exact ⟨_, rfl, .unregister hle hreg⟩
  · exact ⟨_, rfl, .close hle (by simpa using hreg)⟩
  · exact ⟨_, rfl, .assign (not_le.1 hle)⟩

theorem not_active_updateState {state : FdState} (h : state ≠ .active) :
    ¬ Active { s with records := s.records.updateState fd state } fd := by
  rintro ⟨record, hrecord, hstate⟩
  simp only [FdRecords.updateState, update_self, Option.map_eq_some_iff] at hrecord
  obtain ⟨record', -, rfl⟩ := hrecord
  exact h hstate

/-- An `Active` record of what an object owns is one of the number it holds, and the object is bound. -/
theorem Kept.holds_of_active (hs : Kept s doing) (ho : s.objects i = some o)
    (hown : OwnsAt s doing i fd) (hactive : s.Active fd) : o.fd = fd ∧ o.registry = true := by
  obtain ⟨-, j, o', ho', hfd, hreg, hj⟩ := hs.active fd hactive
  cases hs.unique i j fd hown hj
  cases ho.symm.trans ho'
  exact ⟨hfd, hreg⟩

theorem Kept.not_active (hs : Kept s doing) (ho : s.objects i = some o) (hreg : o.registry = false)
    (hown : OwnsAt s doing i fd) : ¬ s.Active fd := by
  intro hactive
  rw [(hs.holds_of_active ho hown hactive).2] at hreg
  cases hreg

theorem Kept.beginReset (hs : Kept s doing) (hr : Ready doing a) (hbegins : a.begins = true)
    (hti : a.touches i = true) (ho : s.objects i = some o) (hop : op ≠ .moveAssign i)
    (hpass : 0 ≤ op.fd → s.descriptors op.fd ≠ none ∧ ∀ x, ¬ OwnsAt s doing x op.fd) :
    Kept (s.beginReset i o op).1 (next a (s.beginReset i o op).2 doing) := by
  obtain ⟨b, hk, hbegin⟩ := beginReset_cases s i o op
  generalize (s.beginReset i o op).1 = s' at hbegin ⊢
  rw [hk]
  have hbefore : ∀ m, OwnsAt s doing i m ↔ 0 ≤ m ∧ o.fd = m := by
    refine fun m => ownsAt_holds ho fun b hb => ?_
    rw [hr.idle hbegins i hti] at hb
    cases hb
  have hne : 0 ≤ o.fd → o.fd ≠ op.fd := by
    intro hle heq
    exact (hpass (heq ▸ hle)).2 i ((hbefore _).2 ⟨heq ▸ hle, heq⟩)
  have hobject : object b = some i := by cases hbegin <;> rfl
  have huses : Uses i b := by cases hbegin <;> cases op <;> simp [Uses, begins, touches]
  have hnext : next a [b] doing i = some b := by
    rw [next_of_touches hti]
    simp [huses]
  have hobjects : s'.objects = s.objects := by cases hbegin <;> rfl
  have hdescriptors : s'.descriptors = s.descriptors := by cases hbegin <;> rfl
  have hT : Changes (· = i) a [b] s s' :=
    changes_one hti (Or.inl (object_of_begins hbegins)) (by simp [hobject]) fun x _ => by rw [hobjects]
  have hafter : ∀ m, OwnsAt s' (next a [b] doing) i m ↔
      OwnsAt s doing i m ∨ (0 ≤ m ∧ op.fd = m) := by
    intro m
    have ho' : s'.objects i = some o := by rw [hobjects, ho]
    rw [hbefore, ← and_or_left]
    cases hbegin with
    | unregister => exact ownsAt_closing ho' hnext (Or.inl rfl)
    | close => exact ownsAt_closing ho' hnext (Or.inr rfl)
    | assign hlt =>
      rw [ownsAt_closed hnext]
      constructor
      · rintro ⟨hle, h⟩
        exact ⟨hle, Or.inr h⟩
      · rintro ⟨hle, rfl | h⟩
        · omega
        · exact ⟨hle, h⟩
  have hinactive : 0 ≤ o.fd → ¬ s'.Active o.fd := by
    intro hle
    cases hbegin with
    | unregister => exact not_active_updateState (by decide)
    | close _ hreg => exact hs.not_active ho hreg ((hbefore _).2 ⟨hle, rfl⟩)
    | assign hlt => omega
  refine hT.kept hr hs (fun m hm => ?_) (step_acquire (fun hle => (hpass hle).2) hafter
    fun x hx m => hT.ownsAt_iff hr hx) (fun x m hm => ?_) (fun x m hx hm hactive => ?_)
    (fun x _ hx _ _ _ hidle => ?_) fun b' hb => ?_
  · cases hbegin with
    | unregister hle =>
      refine update_of_ne ?_ _ _
      rintro rfl
      exact hm i rfl ((hbefore _).2 ⟨hle, rfl⟩)
    | close | assign => rfl
  · rw [hdescriptors]
    by_cases hx : x = i
    · subst hx
      rcases (hafter m).1 hm with hm | ⟨hle, rfl⟩
      · exact hs.isOpen x m hm
      · exact (hpass hle).1
    · exact hs.isOpen x m ((hT.ownsAt_iff hr hx).1 hm)
  · subst hx
    obtain ⟨hle, rfl⟩ := (hbefore m).1 hm
    exact absurd hactive (hinactive hle)
  · subst hx
    exact absurd hobject (hidle b hnext)
  · rw [List.mem_singleton.1 hb]
    cases hbegin with
    | unregister hle => exact ⟨hop, o, ho, hle, hne hle⟩
    | close hle => exact ⟨hop, o, ho, hle, hne hle, hinactive hle⟩
    | assign => exact hop

theorem Kept.unregisterFd (hs : Kept s doing) (hr : Ready doing (.unregisterFd i op))
    (ho : s.objects i = some o) :
    Kept { s with records := s.records.unregisterFd o.fd }
      (next (.unregisterFd i op) [.close i op] doing) := by
  have hti : touches (.unregisterFd i op) i = true := by cases op <;> simp [touches]
  have hdoing : doing i = some (.unregisterFd i op) := hr.busy rfl i hti
  obtain ⟨hop, o', ho', hle, hne⟩ := hs.doingOk i _ hdoing
  cases ho.symm.trans ho'
  have hnext : next (.unregisterFd i op) [.close i op] doing i = some (.close i op) := by
    rw [next_of_touches hti]
    cases op <;> simp [Uses, begins, touches]
  have hT : Changes (· = i) (.unregisterFd i op) [.close i op] s
      { s with records := s.records.unregisterFd o.fd } :=
    changes_one hti (Or.inr rfl) (by simp [object]) fun _ _ => rfl
  have hbefore : ∀ m, OwnsAt s doing i m ↔ 0 ≤ m ∧ (o.fd = m ∨ op.fd = m) :=
    fun m => ownsAt_closing ho hdoing (Or.inl rfl)
  have hafter : ∀ m, OwnsAt { s with records := s.records.unregisterFd o.fd }
      (next (.unregisterFd i op) [.close i op] doing) i m ↔ OwnsAt s doing i m := by
    intro m
    rw [hbefore]
    exact ownsAt_closing ho hnext (Or.inr rfl)
  have hinactive : ¬ Active { s with records := s.records.unregisterFd o.fd } o.fd := by
    rintro ⟨record, hrecord, -⟩
    simp [FdRecords.unregisterFd] at hrecord
  refine hT.kept hr hs (fun m hm => update_of_ne ?_ _ _)
    (step_idle hafter fun x hx m => hT.ownsAt_iff hr hx)
    (fun x m hm => hs.isOpen x m (hT.owned hr (fun m => (hafter m).1) x m hm))
    (fun x m hx hm hactive => ?_) (fun x _ hx _ _ _ hidle => ?_) fun b hb => ?_
  · rintro rfl
    exact hm i rfl ((hbefore _).2 ⟨hle, Or.inl rfl⟩)
  · subst hx
    by_cases hm' : m = o.fd
    · rw [hm'] at hactive
      exact absurd hactive hinactive
    · have hold := hs.holds_of_active ho hm ((Active.congr (update_of_ne hm' _ _)).1 hactive)
      exact absurd hold.1.symm hm'
  · subst hx
    exact absurd rfl (hidle _ hnext)
  · rw [List.mem_singleton.1 hb]
    exact ⟨hop, o, ho, hle, hne, hinactive⟩

theorem Kept.close (hs : Kept s doing) (hr : Ready doing (.close i op)) (ho : s.objects i = some o) :
    Kept (s.close o.fd) (next (.close i op) [.assign i op] doing) := by
  have hti : touches (.close i op) i = true := by cases op <;> simp [touches]
  have hdoing : doing i = some (.close i op) := hr.busy rfl i hti
  obtain ⟨hop, o', ho', hle, hne, hinactive⟩ := hs.doingOk i _ hdoing
  cases ho.symm.trans ho'
  have hnext : next (.close i op) [.assign i op] doing i = some (.assign i op) := by
    rw [next_of_touches hti]
    cases op <;> simp [Uses, begins, touches]
  have hT : Changes (· = i) (.close i op) [.assign i op] s (s.close o.fd) :=
    changes_one hti (Or.inr rfl) (by simp [object]) fun _ _ => rfl
  have hbefore : ∀ m, OwnsAt s doing i m ↔ 0 ≤ m ∧ (o.fd = m ∨ op.fd = m) :=
    fun m => ownsAt_closing ho hdoing (Or.inr rfl)
  have hafter : ∀ m, OwnsAt (s.close o.fd) (next (.close i op) [.assign i op] doing) i m ↔
      OwnsAt s doing i m ∧ m ≠ o.fd := by
    intro m
    rw [hbefore, ownsAt_closed hnext]
    constructor
    · rintro ⟨hle, rfl⟩
      exact ⟨⟨hle, Or.inr rfl⟩, hne.symm⟩
    · rintro ⟨⟨hle, h | h⟩, hm⟩
      · exact absurd h.symm hm
      · exact ⟨hle, h⟩
  refine hT.kept hr hs (fun _ _ => rfl) (step_drop hafter fun x hx m => hT.ownsAt_iff hr hx)
    (fun x m hm => ?_) (fun x m hx hm hactive => ?_) (fun x _ hx _ _ _ hidle => ?_) fun b hb => ?_
  · have hm' : OwnsAt s doing x m ∧ m ≠ o.fd := by
      by_cases hx : x = i
      · subst hx
        exact (hafter m).1 hm
      · have hxm := (hT.ownsAt_iff hr hx).1 hm
        refine ⟨hxm, ?_⟩
        rintro rfl
        exact hx (hs.unique x i _ hxm ((hbefore _).2 ⟨hle, Or.inl rfl⟩))
    have hopen := hs.isOpen x m hm'.1
    simpa only [FdTable.close, update_of_ne hm'.2] using hopen
  · subst hx
    have hactive' : s.Active m := hactive
    rw [← (hs.holds_of_active ho hm hactive').1] at hactive'
    exact absurd hactive' hinactive
  · subst hx
    exact absurd rfl (hidle _ hnext)
  · rw [List.mem_singleton.1 hb]
    exact hop

/-- What `reset` leaves to do when the object has the new number. -/
def afterReset (i : ℕ) (o : FileDescriptor) : ResetOf → List FdAction
  | .reset fd type => if o.registry ∧ 0 ≤ fd then [.registerFd i fd type] else []
  | .moveAssign other => [.transfer i other]
  | .destroy => [.dispose i]

theorem mem_afterReset {b : FdAction} (hb : b ∈ afterReset i o op) :
    object b = some i ∧ Uses i b ∧ ¬ HasClosed i b ∧ ∀ m, ¬ Passed i m b := by
  cases op with
  | reset fd type =>
    simp only [afterReset] at hb
    split_ifs at hb
    · rw [List.mem_singleton.1 hb]
      exact ⟨rfl, ⟨rfl, by simp [touches]⟩, id, fun _ => id⟩
    · cases hb
  | moveAssign | destroy =>
    rw [List.mem_singleton.1 hb]
    exact ⟨rfl, ⟨rfl, by simp [touches]⟩, id, fun _ => id⟩

theorem Kept.assign (hs : Kept s doing) (hr : Ready doing (.assign i op)) (ho : s.objects i = some o) :
    Kept (s.setObject i (some { o with fd := op.fd }))
      (next (.assign i op) (afterReset i o op) doing) := by
  have hti : touches (.assign i op) i = true := by cases op <;> simp [touches]
  have hdoing : doing i = some (.assign i op) := hr.busy rfl i hti
  have hop : op ≠ .moveAssign i := hs.doingOk i _ hdoing
  have hT : Changes (· = i) (.assign i op) (afterReset i o op) s
      (s.setObject i (some { o with fd := op.fd })) :=
    changes_one hti (Or.inr rfl) (fun b hb => (mem_afterReset hb).1) fun x hx => setObject_of_ne hx _
  have hbefore : ∀ m, OwnsAt s doing i m ↔ 0 ≤ m ∧ op.fd = m := fun m => ownsAt_closed hdoing
  have hafter : ∀ m, OwnsAt (s.setObject i (some { o with fd := op.fd }))
      (next (.assign i op) (afterReset i o op) doing) i m ↔ OwnsAt s doing i m := by
    intro m
    rw [hbefore]
    refine ownsAt_holds (setObject_self i _) fun b hb => ?_
    rw [next_of_touches hti] at hb
    exact (mem_afterReset (List.mem_of_find?_eq_some hb)).2.2
  refine hT.kept hr hs (fun _ _ => rfl) (step_idle hafter fun x hx m => hT.ownsAt_iff hr hx)
    (fun x m hm => hs.isOpen x m (hT.owned hr (fun m => (hafter m).1) x m hm))
    (fun x m hx hm hactive => ?_) (fun x o' hx ho' hle hreg hidle => ?_) fun b hb => ?_
  · subst hx
    have hactive' : s.Active m := hactive
    exact ⟨x, _, setObject_self x _, ((hbefore m).1 hm).2, (hs.holds_of_active ho hm hactive').2,
      (hafter m).2 hm⟩
  · subst hx
    rw [setObject_self] at ho'
    cases ho'
    cases op with
    | reset fd type =>
      have hnext : next (.assign x (.reset fd type)) (afterReset x o (.reset fd type)) doing x =
          some (.registerFd x fd type) := by
        rw [next_of_touches hti, afterReset, if_pos ⟨hreg, hle⟩]
        simp [Uses, begins, touches]
      exact absurd rfl (hidle _ hnext)
    | moveAssign | destroy => simp [ResetOf.fd] at hle
  · cases op with
    | reset fd type =>
      simp only [afterReset] at hb
      split_ifs at hb with h
      · rw [List.mem_singleton.1 hb]
        exact ⟨h.2, _, setObject_self i _, rfl, h.1⟩
      · cases hb
    | moveAssign other =>
      rw [List.mem_singleton.1 hb]
      refine ⟨fun h => hop (by rw [h]), _, setObject_self i _, ?_⟩
      show (-1 : ℤ) < 0
      decide
    | destroy =>
      rw [List.mem_singleton.1 hb]
      refine ⟨_, setObject_self i _, ?_⟩
      show (-1 : ℤ) < 0
      decide

theorem Kept.dispose (hs : Kept s doing) (hr : Ready doing (.dispose i)) :
    Kept (s.setObject i none) (next (.dispose i) [] doing) := by
  have hti : touches (.dispose i) i = true := by simp [touches]
  have hdoing : doing i = some (.dispose i) := hr.busy rfl i hti
  obtain ⟨o, ho, hlt⟩ := hs.doingOk i _ hdoing
  have hT : Changes (· = i) (.dispose i) [] s (s.setObject i none) :=
    changes_one hti (Or.inr rfl) nofun fun x hx => setObject_of_ne hx _
  have hbefore : ∀ m, ¬ OwnsAt s doing i m := by
    intro m hm
    rw [ownsAt_holds ho fun b hb => ?_] at hm
    · omega
    · rw [hdoing] at hb
      cases hb
      exact ⟨id, fun _ => id⟩
  have hafter : ∀ m, ¬ OwnsAt (s.setObject i none) (next (.dispose i) [] doing) i m :=
    fun m => ownsAt_none (setObject_self i _) (next_of_touches hti)
  refine hT.kept hr hs (fun _ _ => rfl) (step_idle (fun m => iff_of_false (hafter m) (hbefore m))
    fun x hx m => hT.ownsAt_iff hr hx)
    (fun x m hm => hs.isOpen x m (hT.owned hr (fun m h => absurd h (hafter m)) x m hm))
    (fun x m hx hm _ => ?_) (fun x o' hx ho' _ _ _ => ?_) nofun
  · subst hx
    exact absurd hm (hbefore m)
  · subst hx
    rw [setObject_self] at ho'
    cases ho'

/-! ## Release -/

/-- The state after the first step of `release`. -/
def beginRelease (s : FdTable) (o : FileDescriptor) : FdTable :=
  if o.registry ∧ 0 ≤ o.fd then { s with records := s.records.updateState o.fd .released } else s

theorem Kept.release (hs : Kept s doing) (hr : Ready doing (.release i)) (ho : s.objects i = some o) :
    Kept (s.beginRelease o) (next (.release i) [.releaseFd i] doing) := by
  have hti : touches (.release i) i = true := by simp [touches]
  have hnext : next (.release i) [.releaseFd i] doing i = some (.releaseFd i) := by
    rw [next_of_touches hti]
    simp [Uses, begins, touches]
  have hobjects : (s.beginRelease o).objects = s.objects := by
    unfold beginRelease
    split_ifs <;> rfl
  have hdescriptors : (s.beginRelease o).descriptors = s.descriptors := by
    unfold beginRelease
    split_ifs <;> rfl
  have hT : Changes (· = i) (.release i) [.releaseFd i] s (s.beginRelease o) :=
    changes_one hti (Or.inl rfl) (by simp [object]) fun x _ => by rw [hobjects]
  have hbefore : ∀ m, OwnsAt s doing i m ↔ 0 ≤ m ∧ o.fd = m := by
    refine fun m => ownsAt_holds ho fun b hb => ?_
    rw [hr.idle rfl i hti] at hb
    cases hb
  have hafter : ∀ m, OwnsAt (s.beginRelease o) (next (.release i) [.releaseFd i] doing) i m ↔
      OwnsAt s doing i m := by
    intro m
    rw [hbefore]
    refine ownsAt_holds (by rw [hobjects, ho]) fun b hb => ?_
    rw [hnext] at hb
    cases hb
    exact ⟨id, fun _ => id⟩
  have hinactive : ¬ (s.beginRelease o).Active o.fd := by
    unfold beginRelease
    split_ifs with h
    · exact not_active_updateState (by decide)
    · intro hactive
      have hle := (hs.active _ hactive).1
      exact h ⟨(hs.holds_of_active ho ((hbefore _).2 ⟨hle, rfl⟩) hactive).2, hle⟩
  refine hT.kept hr hs (fun m hm => ?_) (step_idle hafter fun x hx m => hT.ownsAt_iff hr hx)
    (fun x m hm => ?_) (fun x m hx hm hactive => ?_) (fun x _ hx _ _ _ hidle => ?_) fun b hb => ?_
  · unfold beginRelease
    split_ifs with h
    · refine update_of_ne ?_ _ _
      rintro rfl
      exact hm i rfl ((hbefore _).2 ⟨h.2, rfl⟩)
    · rfl
  · rw [hdescriptors]
    exact hs.isOpen x m (hT.owned hr (fun m => (hafter m).1) x m hm)
  · subst hx
    rw [← ((hbefore m).1 hm).2] at hactive
    exact absurd hactive hinactive
  · subst hx
    exact absurd rfl (hidle _ hnext)
  · rw [List.mem_singleton.1 hb]
    exact ⟨o, by rw [hobjects, ho], hinactive⟩

theorem Kept.releaseFd (hs : Kept s doing) (hr : Ready doing (.releaseFd i))
    (ho : s.objects i = some o) :
    Kept (s.setObject i (some { o with fd := -1 })) (next (.releaseFd i) [] doing) := by
  have hti : touches (.releaseFd i) i = true := by simp [touches]
  have hdoing : doing i = some (.releaseFd i) := hr.busy rfl i hti
  obtain ⟨o', ho', hinactive⟩ := hs.doingOk i _ hdoing
  cases ho.symm.trans ho'
  have hT : Changes (· = i) (.releaseFd i) [] s (s.setObject i (some { o with fd := -1 })) :=
    changes_one hti (Or.inr rfl) nofun fun x hx => setObject_of_ne hx _
  have hbefore : ∀ m, OwnsAt s doing i m ↔ 0 ≤ m ∧ o.fd = m := by
    refine fun m => ownsAt_holds ho fun b hb => ?_
    rw [hdoing] at hb
    cases hb
    exact ⟨id, fun _ => id⟩
  have hafter : ∀ m, ¬ OwnsAt (s.setObject i (some { o with fd := -1 }))
      (next (.releaseFd i) [] doing) i m := by
    intro m hm
    rw [ownsAt_holds (setObject_self i _) fun b hb => ?_] at hm
    · have hfd : -1 = m := hm.2
      omega
    · rw [next_of_touches hti] at hb
      cases hb
  have hdrop : ∀ m, OwnsAt (s.setObject i (some { o with fd := -1 })) (next (.releaseFd i) [] doing) i m ↔
      OwnsAt s doing i m ∧ m ≠ o.fd := by
    refine fun m => iff_of_false (hafter m) ?_
    rintro ⟨hm, hne⟩
    exact hne ((hbefore m).1 hm).2.symm
  refine hT.kept hr hs (fun _ _ => rfl) (step_drop hdrop fun x hx m => hT.ownsAt_iff hr hx)
    (fun x m hm => hs.isOpen x m (hT.owned hr (fun m h => absurd h (hafter m)) x m hm))
    (fun x m hx hm hactive => ?_) (fun x o' hx ho' hle _ _ => ?_) nofun
  · subst hx
    have hactive' : s.Active m := hactive
    rw [← ((hbefore m).1 hm).2] at hactive'
    exact absurd hactive' hinactive
  · subst hx
    rw [setObject_self] at ho'
    cases ho'
    have hfd : (0 : ℤ) ≤ -1 := hle
    omega

/-! ## Moves -/

/-- The transfer of a number to an object that owns none. -/
theorem Kept.transfer {p : FileDescriptor} (hs : Kept s doing) (hr : Ready doing a)
    (htouches : ∀ x, a.touches x = true ↔ x = i ∨ x = j) (hij : i ≠ j) (ha : object a ≠ some j)
    (hp : s.objects j = some p) (hi : ∀ m, ¬ OwnsAt s doing i m) (o : FileDescriptor) :
    Kept (s.transfer i j o p) (next a [] doing) := by
  have hnone : ∀ x, x = i ∨ x = j → next a [] doing x = none :=
    fun x hx => next_of_touches ((htouches x).2 hx)
  have hT : Changes (fun x => x = i ∨ x = j) a [] s (s.transfer i j o p) := by
    refine ⟨fun x => (htouches x).2, fun x ht hx => absurd ((htouches x).1 ht) hx, fun x hx => ?_⟩
    exact (setObject_of_ne (fun h => hx (Or.inr h)) _).trans
      (setObject_of_ne (fun h => hx (Or.inl h)) _)
  have hoi : (s.transfer i j o p).objects i =
      some { o with fd := p.fd, registry := p.registry } :=
    (setObject_of_ne hij _).trans (setObject_self i _)
  have hoj : (s.transfer i j o p).objects j = some { p with fd := -1, registry := false } :=
    setObject_self j _
  have hidle : Idle doing j := hr.idle_of_touches ((htouches j).2 (Or.inr rfl)) ha
  have hbefore : ∀ m, OwnsAt s doing j m ↔ 0 ≤ m ∧ p.fd = m := by
    intro m
    rw [ownsAt_idle hidle]
    simp [hp]
  have hafter : ∀ m, OwnsAt (s.transfer i j o p) (next a [] doing) i m ↔ OwnsAt s doing j m := by
    intro m
    rw [hbefore, ownsAt_holds hoi fun b hb => by rw [hnone i (Or.inl rfl)] at hb; cases hb]
  have hgone : ∀ m, ¬ OwnsAt (s.transfer i j o p) (next a [] doing) j m := by
    intro m hm
    rw [ownsAt_holds hoj fun b hb => by rw [hnone j (Or.inr rfl)] at hb; cases hb] at hm
    have hfd : -1 = m := hm.2
    omega
  refine hT.kept hr hs (fun _ _ => rfl) (.move i j fun x m => ?_) (fun x m hm => ?_)
    (fun x m hx hm hactive => ?_) (fun x o' hx ho' hle hreg _ => ?_) nofun
  · by_cases hxi : x = i
    · rw [hxi, hafter]
      simp
    · by_cases hxj : x = j
      · rw [hxj]
        simp [hgone, hij.symm]
      · rw [hT.ownsAt_iff hr (by simp [hxi, hxj])]
        simp [hxi, hxj]
  · by_cases hxi : x = i
    · rw [hxi] at hm
      exact hs.isOpen j m ((hafter m).1 hm)
    · by_cases hxj : x = j
      · rw [hxj] at hm
        exact absurd hm (hgone m)
      · exact hs.isOpen x m ((hT.ownsAt_iff hr (by simp [hxi, hxj])).1 hm)
  · rcases hx with rfl | rfl
    · exact absurd hm (hi m)
    · have hactive' : s.Active m := hactive
      exact ⟨i, _, hoi, ((hbefore m).1 hm).2, (hs.holds_of_active hp hm hactive').2, (hafter m).2 hm⟩
  · rcases hx with rfl | rfl
    · rw [hoi] at ho'
      cases ho'
      exact hs.registered j p hp hle hreg hidle
    · rw [hoj] at ho'
      cases ho'
      have hfd : (0 : ℤ) ≤ -1 := hle
      omega

/-! ## Every step -/

/-- `Assumed`, from what the objects are doing. -/
def PassAt (s : FdTable) (doing : ℕ → Option FdAction) : FdAction → Prop
  | .openFd fd => 0 ≤ fd ∧ s.descriptors fd = none
  | .closeFd fd => ∀ x, ¬ OwnsAt s doing x fd
  | .construct _ fd _ _ | .reset _ fd _ =>
    0 ≤ fd → s.descriptors fd ≠ none ∧ ∀ x, ¬ OwnsAt s doing x fd
  | _ => True

theorem passAt_of_assumed (hc : Tracks Uses doing c) (h : Assumed c a) :
    PassAt c.shared doing a := by
  have hfree : ∀ fd, Free c fd → ∀ x, ¬ OwnsAt c.shared doing x fd :=
    fun fd hfree x hx => hfree x ((owns_iff hc).2 hx)
  cases a with
  | openFd fd => exact h.2
  | closeFd fd => exact hfree fd h.2
  | construct i fd registry t => exact fun hle => ⟨(h.2 hle).1, hfree fd (h.2 hle).2⟩
  | reset i fd t => exact fun hle => ⟨(h.2 hle).1, hfree fd (h.2 hle).2⟩
  | _ => trivial

theorem Kept.exec {w : Unit} (hs : Kept s doing) (hr : Ready doing a) (hpass : PassAt s doing a)
    (he : exec a w s = some (s', k)) : Kept s' (next a k doing) := by
  cases a with
  | openFd fd =>
    cases he
    exact hs.openFd hr
  | closeFd fd =>
    cases he
    exact hs.closeFd hr hpass
  | construct i fd registry t =>
    simp only [FdTable.exec] at he
    split at he
    · cases he
    · rename_i hi
      cases he
      exact hs.construct hr hi hpass
  | moveConstruct i j =>
    simp only [FdTable.exec] at he
    split at he
    · rename_i p hi hp
      cases he
      have hij : i ≠ j := by
        rintro rfl
        rw [hi] at hp
        cases hp
      refine hs.transfer hr (by simp [touches]) hij (by simp [object]) hp (fun m => ?_) p
      exact ownsAt_none hi (hr.idle rfl i (by simp [touches]))
    · cases he
  | moveAssign i j =>
    simp only [FdTable.exec] at he
    split at he
    · rename_i o p ho hp
      split_ifs at he with hij
      · -- a move to itself does nothing
        cases he
        have hsame : next (.moveAssign i j) [] doing = doing := by
          funext x
          by_cases hx : touches (.moveAssign i j) x = true
          · exact (next_of_touches hx).trans (hr.idle rfl x hx).symm
          · exact next_of_not_touches hx
        rw [hsame]
        exact hs
      · have hop : ResetOf.moveAssign j ≠ .moveAssign i := fun h => hij (ResetOf.moveAssign.inj h).symm
        have hbegin := hs.beginReset hr rfl (by simp [touches]) ho hop
          fun hle => absurd hle (by simp [ResetOf.fd])
        rw [Option.some.inj he] at hbegin
        exact hbegin
    · cases he
  | release i =>
    obtain ⟨o, ho, h⟩ := Option.map_eq_some_iff.1 he
    cases h
    exact hs.release hr ho
  | reset i fd t =>
    obtain ⟨o, ho, h⟩ := Option.map_eq_some_iff.1 he
    have hop : ResetOf.reset fd t ≠ .moveAssign i := by simp
    have hbegin := hs.beginReset hr rfl (by simp [touches]) ho hop hpass
    rw [h] at hbegin
    exact hbegin
  | destroy i =>
    obtain ⟨o, ho, h⟩ := Option.map_eq_some_iff.1 he
    have hop : ResetOf.destroy ≠ .moveAssign i := by simp
    have hbegin := hs.beginReset hr rfl (by simp [touches]) ho hop
      fun hle => absurd hle (by decide)
    rw [h] at hbegin
    exact hbegin
  | registerFd i fd t =>
    cases he
    exact hs.registerFd hr
  | releaseFd i =>
    obtain ⟨o, ho, h⟩ := Option.map_eq_some_iff.1 he
    cases h
    exact hs.releaseFd hr ho
  | unregisterFd i op =>
    obtain ⟨o, ho, h⟩ := Option.map_eq_some_iff.1 he
    cases h
    exact hs.unregisterFd hr ho
  | close i op =>
    obtain ⟨o, ho, h⟩ := Option.map_eq_some_iff.1 he
    cases h
    exact hs.close hr ho
  | assign i op =>
    obtain ⟨o, ho, h⟩ := Option.map_eq_some_iff.1 he
    have hassign := hs.assign hr ho
    cases op <;> cases h <;> exact hassign
  | transfer i j =>
    simp only [FdTable.exec] at he
    split at he
    · rename_i o p ho hp
      cases he
      have hdoing : doing i = some (.transfer i j) := hr.busy rfl i (by simp [touches])
      obtain ⟨hij, o', ho', hlt⟩ := hs.doingOk i _ hdoing
      cases ho.symm.trans ho'
      refine hs.transfer hr (by simp [touches]) hij (by simp [object, hij]) hp (fun m hm => ?_) o
      rw [ownsAt_holds ho fun b hb => ?_] at hm
      · omega
      · rw [hdoing] at hb
        cases hb
        exact ⟨id, fun _ => id⟩
    · cases he
  | dispose i =>
    obtain ⟨o, -, h⟩ := Option.map_eq_some_iff.1 he
    cases h
    exact hs.dispose hr

/-- What an operation that begins with a `reset` leaves to do. -/
theorem beginReset_leaves (h : s.beginReset i o op = (s', k)) :
    k = [.unregisterFd i op] ∨ k = [.close i op] ∨ k = [.assign i op] := by
  obtain ⟨b, hk, hbegin⟩ := beginReset_cases s i o op
  rw [h] at hk hbegin
  obtain rfl : k = [b] := hk
  cases hbegin
  · exact Or.inl rfl
  · exact Or.inr (Or.inl rfl)
  · exact Or.inr (Or.inr rfl)

theorem touches_of_nil : ([] : List FdAction).length ≤ 1 ∧
    ∀ b ∈ ([] : List FdAction), ∀ x, b.touches x = true → a.touches x = true :=
  ⟨Nat.zero_le _, fun _ hb => absurd hb List.not_mem_nil⟩

theorem touches_of_one {b : FdAction} (h : ∀ x, b.touches x = true → a.touches x = true) :
    [b].length ≤ 1 ∧ ∀ c ∈ [b], ∀ x, c.touches x = true → a.touches x = true := by
  refine ⟨le_rfl, fun c hc => ?_⟩
  rw [List.mem_singleton.1 hc]
  exact h

/-- A step leaves one action at most, and it touches nothing else. -/
theorem exec_leaves {w : Unit} (he : FdTable.exec a w s = some (s', k)) :
    k.length ≤ 1 ∧ ∀ b ∈ k, ∀ x, b.touches x = true → a.touches x = true := by
  cases a with
  | openFd | closeFd | registerFd =>
    cases he
    exact touches_of_nil
  | construct i fd registry t =>
    simp only [FdTable.exec] at he
    split at he
    · cases he
    · cases he
      split_ifs
      · exact touches_of_one fun x h => h
      · exact touches_of_nil
  | moveConstruct i j | transfer i j =>
    simp only [FdTable.exec] at he
    split at he
    · cases he
      exact touches_of_nil
    · cases he
  | moveAssign i j =>
    simp only [FdTable.exec] at he
    split at he
    · split_ifs at he
      · cases he
        exact touches_of_nil
      · rcases beginReset_leaves (Option.some.inj he) with rfl | rfl | rfl
        all_goals exact touches_of_one fun x h => h
    · cases he
  | reset i fd t | destroy i =>
    obtain ⟨o, -, h⟩ := Option.map_eq_some_iff.1 he
    rcases beginReset_leaves h with rfl | rfl | rfl
    all_goals exact touches_of_one fun x h => h
  | release i =>
    obtain ⟨o, -, h⟩ := Option.map_eq_some_iff.1 he
    cases h
    exact touches_of_one fun x h => h
  | releaseFd i | dispose i =>
    obtain ⟨o, -, h⟩ := Option.map_eq_some_iff.1 he
    cases h
    exact touches_of_nil
  | unregisterFd i op | close i op =>
    obtain ⟨o, -, h⟩ := Option.map_eq_some_iff.1 he
    cases h
    cases op
    all_goals exact touches_of_one fun x h => h
  | assign i op =>
    obtain ⟨o, -, h⟩ := Option.map_eq_some_iff.1 he
    cases op with
    | reset fd t =>
      cases h
      by_cases hreg : o.registry = true ∧ 0 ≤ fd
      · simp only [if_pos hreg]
        exact touches_of_one fun x h => h
      · simp only [if_neg hreg]
        exact touches_of_nil
    | moveAssign j =>
      cases h
      exact touches_of_one fun x h => h
    | destroy =>
      cases h
      exact touches_of_one fun x h => h

theorem beginReset_frame (h : s.beginReset i o op = (s', k)) :
    s'.descriptors = s.descriptors ∧ s'.opened = s.opened ∧ s'.closed = s.closed := by
  obtain ⟨b, -, hbegin⟩ := beginReset_cases s i o op
  rw [h] at hbegin
  cases hbegin <;> exact ⟨rfl, rfl, rfl⟩

/-- The steps that open and close nothing. -/
theorem exec_frame {w : Unit} (he : FdTable.exec a w s = some (s', k)) (hopen : ∀ fd, a ≠ .openFd fd)
    (hcloseFd : ∀ fd, a ≠ .closeFd fd) (hclose : ∀ i op, a ≠ .close i op) :
    s'.descriptors = s.descriptors ∧ s'.opened = s.opened ∧ s'.closed = s.closed := by
  cases a with
  | openFd fd => exact absurd rfl (hopen fd)
  | closeFd fd => exact absurd rfl (hcloseFd fd)
  | close i op => exact absurd rfl (hclose i op)
  | registerFd i fd t =>
    cases he
    exact ⟨rfl, rfl, rfl⟩
  | construct | moveConstruct | transfer =>
    simp only [FdTable.exec] at he
    split at he <;> cases he
    exact ⟨rfl, rfl, rfl⟩
  | moveAssign i j =>
    simp only [FdTable.exec] at he
    split at he
    · split_ifs at he
      · cases he
        exact ⟨rfl, rfl, rfl⟩
      · exact beginReset_frame (Option.some.inj he)
    · cases he
  | reset i fd t | destroy i =>
    obtain ⟨o, -, h⟩ := Option.map_eq_some_iff.1 he
    exact beginReset_frame h
  | release i =>
    obtain ⟨o, -, h⟩ := Option.map_eq_some_iff.1 he
    cases h
    split_ifs <;> exact ⟨rfl, rfl, rfl⟩
  | releaseFd i | dispose i | unregisterFd i op | assign i op =>
    obtain ⟨o, -, h⟩ := Option.map_eq_some_iff.1 he
    cases h
    exact ⟨rfl, rfl, rfl⟩

theorem Openings.closeFd (hs : Openings s) (fd : ℤ) :
    Openings { s with descriptors := update s.descriptors fd none } := by
  have hopen : ∀ m n, update s.descriptors fd none m = some n → s.descriptors m = some n := by
    intro m n h
    by_cases hm : m = fd
    · simp [hm] at h
    · rwa [update_of_ne hm] at h
  refine ⟨fun m n h => hs.fresh m n (hopen m n h),
    fun m m' n h h' => hs.injective m m' n (hopen m n h) (hopen m' n h'), fun x hx => ?_, hs.nodup⟩
  obtain ⟨n, hn, rfl, hnot⟩ := hs.closed x hx
  exact ⟨n, hn, rfl, fun m h => hnot m (hopen m n h)⟩

theorem Openings.openFd (hs : Openings s) (fd : ℤ) : Openings { s with
    descriptors := update s.descriptors fd (some s.opened)
    opened := s.opened + 1 } := by
  have hopen : ∀ m n, update s.descriptors fd (some s.opened) m = some n →
      (m = fd ∧ n = s.opened) ∨ s.descriptors m = some n := by
    intro m n h
    by_cases hm : m = fd
    · rw [hm, update_self] at h
      exact Or.inl ⟨hm, (Option.some.inj h).symm⟩
    · rw [update_of_ne hm] at h
      exact Or.inr h
  refine ⟨fun m n h => ?_, fun m m' n h h' => ?_, fun x hx => ?_, hs.nodup⟩
  · show n < s.opened + 1
    rcases hopen m n h with ⟨-, rfl⟩ | h
    · exact Nat.lt_succ_self _
    · exact Nat.lt_succ_of_lt (hs.fresh m n h)
  · rcases hopen m n h with ⟨rfl, rfl⟩ | h
    · rcases hopen m' _ h' with ⟨rfl, -⟩ | h'
      · rfl
      · exact absurd (hs.fresh m' _ h') (lt_irrefl _)
    · rcases hopen m' n h' with ⟨-, rfl⟩ | h'
      · exact absurd (hs.fresh m _ h) (lt_irrefl _)
      · exact hs.injective m m' n h h'
  · obtain ⟨n, hn, rfl, hnot⟩ := hs.closed x hx
    refine ⟨n, Nat.lt_succ_of_lt hn, rfl, fun m h => ?_⟩
    rcases hopen m n h with ⟨-, rfl⟩ | h
    · exact lt_irrefl _ hn
    · exact hnot m h

/-- An object closes an open descriptor. -/
theorem Openings.close (hs : Openings s) (hopen : s.descriptors fd ≠ none) : Openings (s.close fd) := by
  obtain ⟨n, hn⟩ := Option.ne_none_iff_exists'.1 hopen
  have hclosed := hs.closeFd fd
  refine ⟨hclosed.fresh, hclosed.injective, fun x hx => ?_, ?_⟩
  · rcases List.mem_append.1 hx with hx | hx
    · exact hclosed.closed x hx
    · rw [List.mem_singleton.1 hx]
      refine ⟨n, hs.fresh fd n hn, hn, fun m h => ?_⟩
      by_cases hm : m = fd
      · rw [hm] at h
        simp [FdTable.close] at h
      · simp only [FdTable.close, update_of_ne hm] at h
        exact hm (hs.injective m fd n h hn)
  · refine List.nodup_append.2 ⟨hs.nodup, by simp, fun x hx y hy => ?_⟩
    rw [List.mem_singleton.1 hy, hn]
    obtain ⟨n', -, rfl, hnot⟩ := hs.closed x hx
    intro h
    cases h
    exact hnot fd hn

theorem Openings.exec {w : Unit} (hs : Openings s) (hkept : Kept s doing) (hr : Ready doing a)
    (he : FdTable.exec a w s = some (s', k)) : Openings s' := by
  by_cases hopen : ∃ fd, a = .openFd fd
  · obtain ⟨fd, rfl⟩ := hopen
    cases he
    exact hs.openFd fd
  by_cases hcloseFd : ∃ fd, a = .closeFd fd
  · obtain ⟨fd, rfl⟩ := hcloseFd
    cases he
    exact hs.closeFd fd
  by_cases hclose : ∃ i op, a = .close i op
  · obtain ⟨i, op, rfl⟩ := hclose
    obtain ⟨o, ho, h⟩ := Option.map_eq_some_iff.1 he
    cases h
    have hti : touches (.close i op) i = true := by cases op <;> simp [touches]
    have hdoing : doing i = some (.close i op) := hr.busy rfl i hti
    obtain ⟨-, o', ho', hle, -⟩ := hkept.doingOk i _ hdoing
    cases ho.symm.trans ho'
    exact hs.close (hkept.isOpen i o.fd ((ownsAt_closing ho hdoing (Or.inr rfl)).2 ⟨hle, Or.inl rfl⟩))
  · obtain ⟨hd, hn, hc⟩ := exec_frame he (fun fd h => hopen ⟨fd, h⟩) (fun fd h => hcloseFd ⟨fd, h⟩)
      fun i op h => hclose ⟨i, op, h⟩
    exact ⟨by rw [hd, hn]; exact hs.fresh, by rw [hd]; exact hs.injective,
      by rw [hd, hn, hc]; exact hs.closed, by rw [hc]; exact hs.nodup⟩

/-! ## Every run -/

/-- The invariant of a run. -/
def Tracked (c : Config FdTable FdAction) : Prop :=
  ∃ doing, Tracks Uses doing c ∧ Kept c.shared doing ∧ Openings c.shared

theorem tracked_start {threads : List (List FdAction)}
    (hcalls : ∀ t ∈ threads, ∀ a ∈ t, a.begins = true) : Tracked (start threads) := by
  have hnot : ∀ x, ∀ t ∈ threads, ∀ a ∈ t, ¬ Uses x a := by
    rintro x t ht a ha ⟨hbegins, -⟩
    rw [hcalls t ht a ha] at hbegins
    cases hbegins
  have hnone : ∀ x m, ¬ OwnsAt (start threads).shared (fun _ => none) x m :=
    fun x m => ownsAt_none rfl rfl
  refine ⟨fun _ => none, ⟨fun x => ?_, fun x b => ⟨nofun, ?_⟩⟩,
    ⟨fun x m hm => absurd hm (hnone x m), fun x y m hm => absurd hm (hnone x m), ?_, nofun, nofun⟩,
    ⟨nofun, nofun, nofun, List.nodup_nil⟩⟩
  · rw [load_eq_zero fun t ht a ha => if_neg (hnot x t ht a ha)]
    exact Nat.zero_le _
  · rintro ⟨⟨t, ht, b', hb, rfl⟩, hu⟩
    exact absurd hu (hnot x t ht _ hb)
  · rintro m ⟨record, hrecord, -⟩
    cases hrecord

theorem Tracked.step (hc : Tracked c) (h : Step program c a d) (hφ : Assumed c a) : Tracked d := by
  obtain ⟨doing, htracks, hkept, hopenings⟩ := hc
  obtain ⟨w, k, he, hr⟩ := h.spec
  have hready : Ready doing a := .of_tracks htracks hr.pending hφ
  obtain ⟨hlength, htouches⟩ := exec_leaves he
  refine ⟨next a k doing,
    htracks.step hr (fun x _ => List.countP_le_length.trans hlength) (fun x hx => ?_) (fun x hx => ?_),
    hkept.exec hready (passAt_of_assumed htracks hφ) he, hopenings.exec hkept hready he⟩
  · cases hbegins : a.begins with
    | true => exact Or.inl (hready.idle hbegins x hx)
    | false => exact Or.inr (hready.busy hbegins x hx)
  · exact ⟨fun hu => hx hu.2, fun b hb hu => hx (htouches b hb x hu.2)⟩

theorem Tracked.agrees (hc : Tracked c) : Agrees c := by
  obtain ⟨doing, htracks, hkept, hopenings⟩ := hc
  refine ⟨fun i fd h => hkept.isOpen i fd ((owns_iff htracks).1 h),
    fun i j fd hi hj => hkept.unique i j fd ((owns_iff htracks).1 hi) ((owns_iff htracks).1 hj),
    ⟨fun h => ?_, hopenings.nodup, fun fd h => ?_⟩, fun fd h => ?_, fun i o ho hle hreg hidle => ?_⟩
  · obtain ⟨n, -, hn, -⟩ := hopenings.closed none h
    cases hn
  · obtain ⟨n, -, hn, hnot⟩ := hopenings.closed _ h
    exact hnot fd hn
  · obtain ⟨hle, i, o, ho, hfd, hreg, hi⟩ := hkept.active fd h
    refine ⟨hkept.isOpen i fd hi, i, fun j => ⟨fun hj => ?_, ?_⟩, o, ho, hreg⟩
    · exact hkept.unique j i fd ((owns_iff htracks).1 hj) hi
    · rintro rfl
      exact (owns_iff htracks).2 hi
  · refine hkept.registered i o ho hle hreg fun b hb hobject => hidle ?_
    obtain ⟨⟨t, ht, b', hb', rfl⟩, -⟩ := (htracks.doing_iff i b).1 hb
    exact ⟨t, ht, _, hb', hobject⟩

/-- Ownership and registry agree in every state of every run. -/
theorem agrees_of_reaches {threads : List (List FdAction)}
    (hcalls : ∀ t ∈ threads, ∀ a ∈ t, a.begins = true)
    (h : Reaches program Assumed (start threads) c) : Agrees c :=
  (h.invariant (I := Tracked) (tracked_start hcalls)
    fun _ _ _ hc hφ hs => hc.step hs hφ).agrees

/-- A number that one object has closed is opened again, and another object takes it, before the first
one is gone. -/
theorem agrees_of_reuse : ∃ c,
    Reaches program Assumed
      (start [[.openFd 3, .construct 0 3 true .udpSocket, .destroy 0],
        [.openFd 3, .construct 1 3 true .eventFd]]) c ∧
    c.threads = [[.assign 0 .destroy], []] ∧ c.shared.closed = [some 0] ∧
    c.shared.records 3 = some ⟨3, .active, .eventFd⟩ ∧ Agrees c := by
  have hreaches : ∃ c, Reaches program Assumed
      (start [[.openFd 3, .construct 0 3 true .udpSocket, .destroy 0],
        [.openFd 3, .construct 1 3 true .eventFd]]) c ∧
      c.threads = [[.assign 0 .destroy], []] ∧ c.shared.closed = [some 0] ∧
      c.shared.records 3 = some ⟨3, .active, .eventFd⟩ := by
    refine ⟨_, Reaches.move 0 () rfl ?_ <| Reaches.move 0 () rfl ?_ <| Reaches.move 0 () rfl ?_ <|
      Reaches.move 0 () rfl ?_ <| Reaches.move 0 () rfl ?_ <| Reaches.move 0 () rfl ?_ <|
      Reaches.move 1 () rfl ?_ <| Reaches.move 1 () rfl ?_ <| Reaches.move 1 () rfl ?_ <|
      Reaches.refl _, rfl, rfl, rfl⟩
    all_goals
      intro a ha
      cases ha
      simp [Assumed, MayPass, Free, Owns, InUse, Config.Pending, start, Uses, touches, begins,
        HasClosed, Passed, setObject, FdTable.close, FdTable.beginReset, ResetOf.fd]
    -- the second object may take the number: the first one has closed it
    intro i o ho _
    by_contra hi
    rw [update_of_ne (Ne.symm hi)] at ho
    cases ho
  obtain ⟨c, hr, hthreads, hclosed, hrecords⟩ := hreaches
  refine ⟨c, hr, hthreads, hclosed, hrecords, agrees_of_reaches ?_ hr⟩
  simp [begins]

end FdTable

end EdgeNetSwitch
