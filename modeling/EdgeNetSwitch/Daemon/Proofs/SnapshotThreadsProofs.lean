import EdgeNetSwitch.Daemon.SnapshotThreads
import EdgeNetSwitch.Threads.Proofs.ProgramProofs
import Mathlib.Data.UInt

/-!
# Publication is monotone

The writer is at one of six points of a call (`Stage`), which says how many versions have been given out, how
many snapshots stored, and how many calls have returned. A reader sees the counter or the pointer as it is at
its atomic step, so what it sees follows the publications; the version wraps with the 64-bit counter.
-/

namespace EdgeNetSwitch

open Threads Observations

namespace SnapshotPublisher

section

variable {statuses : List RuntimeStatus} {s s' : PublisherState} {version stored returned : ℕ}
  {t rest k : List PublisherAction} {a : PublisherAction} {status : RuntimeStatus}

/-- The calls of `publish` from number `n` on. -/
def calls (statuses : List RuntimeStatus) (n : ℕ) : List PublisherAction := (statuses.drop n).map .publish

/-- Where the writer is: after `n` calls, or within the call for status `n`. -/
inductive Stage (statuses : List RuntimeStatus) : ℕ → ℕ → ℕ → List PublisherAction → Prop
  | idle (n : ℕ) (h : n ≤ statuses.length) : Stage statuses n n n (calls statuses n)
  | called {n : ℕ} {status : RuntimeStatus} (h : statuses[n]? = some status) :
    Stage statuses n n n (.fetchAdd status :: calls statuses (n + 1))
  | counted {n : ℕ} {status : RuntimeStatus} (h : statuses[n]? = some status) :
    Stage statuses (n + 1) n n (.edit status (UInt64.ofNat (n + 1)) :: calls statuses (n + 1))
  | edited {n : ℕ} {snap : RuntimeStatus} (h : publication statuses (n + 1) = some snap) :
    Stage statuses (n + 1) n n (.makeShared snap (UInt64.ofNat (n + 1)) :: calls statuses (n + 1))
  | copied {n : ℕ} {snap : RuntimeStatus} (h : publication statuses (n + 1) = some snap) :
    Stage statuses (n + 1) n n (.store snap (UInt64.ofNat (n + 1)) :: calls statuses (n + 1))
  | stored {n : ℕ} (h : n < statuses.length) :
    Stage statuses (n + 1) (n + 1) n (.ret (UInt64.ofNat (n + 1)) :: calls statuses (n + 1))

/-- What is in the publisher, and what has been recorded. -/
structure Published (statuses : List RuntimeStatus) (version stored returned : ℕ) (s : PublisherState) :
    Prop where
  version_eq : s.publisher.version = UInt64.ofNat version
  snapshot_eq : s.publisher.snapshot = publication statuses stored
  returned_eq : s.returned = (List.range returned).map fun k => UInt64.ofNat (k + 1)
  loads : Follows (LoadShows statuses) stored s.loads
  versions : Follows VersionShows version s.versions

/-- An action of a reader: a call that has begun did so when no more calls of `publish` had returned than
now. -/
def Reading (returned : ℕ) : PublisherAction → Prop
  | .load _ | .version _ => True
  | .atomicLoad _ n | .atomicVersion _ n => n ≤ returned
  | _ => False

/-- The invariant of every run: the writer is at some point of a call, the others read. -/
def Inv (statuses : List RuntimeStatus) (c : Config PublisherState PublisherAction) : Prop :=
  ∃ version stored returned writer readers, c.threads = writer :: readers ∧
    Stage statuses version stored returned writer ∧ Published statuses version stored returned c.shared ∧
    ∀ t ∈ readers, ∀ a ∈ t, Reading returned a

theorem lt_length_of_publication {n : ℕ} {snap : RuntimeStatus}
    (h : publication statuses (n + 1) = some snap) : n < statuses.length := by
  obtain ⟨status, hstatus, -⟩ := Option.map_eq_some_iff.1 h
  exact (List.getElem?_eq_some_iff.1 hstatus).1

/-- A call returns after its snapshot is stored, and this after its version is given out. -/
theorem Stage.le (h : Stage statuses version stored returned t) :
    returned ≤ stored ∧ stored ≤ version ∧ version ≤ statuses.length := by
  cases h with
  | idle n h => omega
  | called h =>
    have hlt := (List.getElem?_eq_some_iff.1 h).1
    omega
  | counted h =>
    have hlt := (List.getElem?_eq_some_iff.1 h).1
    omega
  | edited h =>
    have hlt := lt_length_of_publication h
    omega
  | copied h =>
    have hlt := lt_length_of_publication h
    omega
  | stored h => omega

theorem Published.length_returned (h : Published statuses version stored returned s) :
    s.returned.length = returned := by
  rw [h.returned_eq, List.length_map, List.length_range]

/-! ## One step -/

/-- A step of the writer. -/
theorem Stage.step (h : Stage statuses version stored returned (a :: rest))
    (hs : Published statuses version stored returned s) {w : Unit} (he : exec a w s = some (s', k)) :
    ∃ version' stored' returned', returned ≤ returned' ∧
      Stage statuses version' stored' returned' (k ++ rest) ∧
      Published statuses version' stored' returned' s' := by
  generalize ht : a :: rest = t at h
  cases h with
  | idle _ h =>
    cases hdrop : statuses.drop version with
    | nil =>
      rw [calls, hdrop] at ht
      exact absurd ht (List.cons_ne_nil a rest)
    | cons status later =>
      rw [calls, hdrop] at ht
      obtain ⟨rfl, rfl⟩ := List.cons.inj ht
      cases he
      have hstatus : statuses[version]? = some status := by
        rw [← List.head?_drop, hdrop]
        rfl
      have hlater : statuses.drop (version + 1) = later := by
        rw [← List.tail_drop, hdrop]
        rfl
      refine ⟨version, version, version, Nat.le_refl version, ?_, hs⟩
      have hcalled := Stage.called hstatus
      rw [calls, hlater] at hcalled
      exact hcalled
  | @called _ status h =>
    obtain ⟨rfl, rfl⟩ := List.cons.inj ht
    cases he
    have hv : s.publisher.version + 1 = UInt64.ofNat (version + 1) := by
      rw [hs.version_eq, UInt64.ofNat_add]
      rfl
    refine ⟨version + 1, version, version, Nat.le_refl version, ?_, hv, hs.snapshot_eq, hs.returned_eq,
      hs.loads, ?_⟩
    · rw [hv]
      exact .counted h
    · exact hs.versions.advance (Nat.le_succ version)
  | @counted _ status h =>
    obtain ⟨rfl, rfl⟩ := List.cons.inj ht
    cases he
    refine ⟨stored + 1, stored, stored, Nat.le_refl stored, .edited ?_, hs⟩
    rw [publication, h]
    rfl
  | @edited _ snap h =>
    obtain ⟨rfl, rfl⟩ := List.cons.inj ht
    cases he
    exact ⟨stored + 1, stored, stored, Nat.le_refl stored, .copied h, hs⟩
  | @copied _ snap h =>
    obtain ⟨rfl, rfl⟩ := List.cons.inj ht
    cases he
    refine ⟨stored + 1, stored + 1, stored, Nat.le_refl stored, .stored (lt_length_of_publication h), ?_⟩
    exact ⟨hs.version_eq, h.symm, hs.returned_eq, hs.loads.advance (Nat.le_succ stored), hs.versions⟩
  | stored h =>
    obtain ⟨rfl, rfl⟩ := List.cons.inj ht
    cases he
    refine ⟨returned + 1, returned + 1, returned + 1, Nat.le_succ returned, .idle (returned + 1) h, ?_⟩
    refine ⟨hs.version_eq, hs.snapshot_eq, ?_, hs.loads, hs.versions⟩
    rw [List.range_succ, List.map_append, ← hs.returned_eq]
    rfl

/-- A step of a reader. -/
theorem Reading.step (ha : Reading returned a) (hle : returned ≤ stored) (hle' : stored ≤ version)
    (hs : Published statuses version stored returned s) {w : Unit} (he : exec a w s = some (s', k)) :
    Published statuses version stored returned s' ∧ ∀ b ∈ k, Reading returned b := by
  have hlength := hs.length_returned
  cases a with
  | load reader =>
    cases he
    refine ⟨hs, fun b hb => ?_⟩
    rw [List.mem_singleton.1 hb]
    exact hlength.le
  | version reader =>
    cases he
    refine ⟨hs, fun b hb => ?_⟩
    rw [List.mem_singleton.1 hb]
    exact hlength.le
  | atomicLoad reader n =>
    cases he
    refine ⟨⟨hs.version_eq, hs.snapshot_eq, hs.returned_eq, hs.loads.look ⟨hs.snapshot_eq, ?_⟩, hs.versions⟩,
      fun b hb => absurd hb List.not_mem_nil⟩
    exact Nat.le_trans ha hle
  | atomicVersion reader n =>
    cases he
    refine ⟨⟨hs.version_eq, hs.snapshot_eq, hs.returned_eq, hs.loads, hs.versions.look ⟨hs.version_eq, ?_⟩⟩,
      fun b hb => absurd hb List.not_mem_nil⟩
    exact Nat.le_trans ha (Nat.le_trans hle hle')
  | publish status | fetchAdd status => exact ha.elim
  | edit status v | makeShared status v | store snap v => exact ha.elim
  | ret v => exact ha.elim

theorem Reading.mono {returned' : ℕ} (ha : Reading returned a) (hle : returned ≤ returned') :
    Reading returned' a := by
  cases a with
  | load reader | version reader => trivial
  | atomicLoad reader n | atomicVersion reader n => exact Nat.le_trans ha hle
  | publish status | fetchAdd status => exact ha.elim
  | edit status v | makeShared status v | store snap v => exact ha.elim
  | ret v => exact ha.elim

/-! ## Runs -/

variable {c d : Config PublisherState PublisherAction} {readers : List (List ReaderCall)}

theorem inv_init (statuses : List RuntimeStatus) (readers : List (List ReaderCall)) :
    Inv statuses (init statuses readers) := by
  refine ⟨0, 0, 0, calls statuses 0, _, rfl, .idle 0 (Nat.zero_le _),
    ⟨rfl, rfl, rfl, .nil _ _, .nil _ _⟩, ?_⟩
  intro t ht a ha
  obtain ⟨reader, hreader, rfl⟩ := List.mem_mapIdx.1 ht
  obtain ⟨call, -, rfl⟩ := List.mem_map.1 ha
  cases call <;> trivial

theorem inv_step (h : Inv statuses c) (hs : Step program c a d) : Inv statuses d := by
  obtain ⟨version, stored, returned, writer, readers, hthreads, hstage, hpublished, hreading⟩ := h
  obtain ⟨w, k, he, hreplaces⟩ := hs.spec
  rcases hreplaces.cons hthreads with ⟨rest, rfl, hd⟩ | ⟨readers', hd, hothers⟩
  · obtain ⟨version', stored', returned', hle, hstage', hpublished'⟩ := hstage.step hpublished he
    refine ⟨version', stored', returned', k ++ rest, readers, hd, hstage', hpublished', ?_⟩
    exact fun t ht b hb => (hreading t ht b hb).mono hle
  · obtain ⟨hle, hle', -⟩ := hstage.le
    have ha : Reading returned a := by
      obtain ⟨t, ht, b, hb, rfl⟩ := hothers.pending
      exact hreading t ht b hb
    obtain ⟨hpublished', hk⟩ := ha.step hle hle' hpublished he
    refine ⟨version, stored, returned, writer, readers', hd, hstage, hpublished', ?_⟩
    refine hothers.stacks (S := fun t => ∀ b ∈ t, Reading returned b) hreading fun rest hrest b hb => ?_
    rcases List.mem_append.1 hb with hb | hb
    · exact hk b hb
    · exact hrest b (List.mem_cons_of_mem a hb)

theorem inv_of_reaches (h : Reaches program anyStep (init statuses readers) c) : Inv statuses c :=
  h.invariant (inv_init statuses readers) fun _ _ _ hc _ hs => inv_step hc hs

/-- Every run follows the publications, however many there are. -/
theorem followsPublications_of_reaches (h : Reaches program anyStep (init statuses readers) c) :
    FollowsPublications statuses c.shared := by
  obtain ⟨version, stored, returned, writer, readers, -, hstage, hpublished, -⟩ := inv_of_reaches h
  obtain ⟨-, hle, hlength⟩ := hstage.le
  refine ⟨hpublished.loads.advance (Nat.le_trans hle hlength), hpublished.versions.advance hlength, ?_⟩
  rw [hpublished.length_returned]
  exact hpublished.returned_eq

/-! ## Versions that do not wrap -/

theorem toNat_ofNat_of_le {n : ℕ} (h : n ≤ statuses.length) (hlt : statuses.length < 2 ^ 64) :
    (UInt64.ofNat n).toNat = n :=
  UInt64.toNat_ofNat_of_lt' (Nat.lt_of_le_of_lt h hlt)

/-- A snapshot is a publication with its number. -/
theorem publication_eq_some {n : ℕ} {snap : RuntimeStatus} (h : publication statuses n = some snap)
    (hle : n ≤ statuses.length) (hlt : statuses.length < 2 ^ 64) :
    n ≠ 0 ∧ snap.snapshot_version.toNat = n ∧ ∃ status, statuses[n - 1]? = some status ∧
      snap = { status with snapshot_version := snap.snapshot_version } := by
  cases n with
  | zero => exact absurd h nofun
  | succ n =>
    obtain ⟨status, hstatus, rfl⟩ := Option.map_eq_some_iff.1 h
    exact ⟨Nat.succ_ne_zero n, toNat_ofNat_of_le hle hlt, status, hstatus, rfl⟩

theorem exists_publication {n : ℕ} (hne : n ≠ 0) (hle : n ≤ statuses.length) :
    ∃ snap, publication statuses n = some snap := by
  cases n with
  | zero => exact absurd rfl hne
  | succ n => exact ⟨_, by rw [publication, List.getElem?_eq_getElem hle]; rfl⟩

theorem VersionsInOrder.of_follows (h : FollowsPublications statuses s) (hlt : statuses.length < 2 ^ 64) :
    VersionsInOrder statuses s where
  ascending reader := by
    apply List.Pairwise.filter
    refine h.loads.pairwise fun i j l l' hij hj hl hl' snap hsnap => ?_
    have hi : i ≤ statuses.length := Nat.le_trans hij hj
    obtain ⟨hne, hversion, -⟩ := publication_eq_some (hl.1.symm.trans hsnap) hi hlt
    obtain ⟨snap', hsnap'⟩ := exists_publication (show j ≠ 0 by omega) hj
    obtain ⟨-, hversion', -⟩ := publication_eq_some hsnap' hj hlt
    refine ⟨snap', hl'.1.trans hsnap', UInt64.le_iff_toNat_le.2 ?_⟩
    omega
  exact l hl snap hsnap := by
    obtain ⟨i, hi, hshows, -⟩ := h.loads.exists_stage hl
    obtain ⟨hne, hversion, status, hstatus, heq⟩ := publication_eq_some (hshows.symm.trans hsnap) hi hlt
    refine ⟨fun hzero => ?_, status, ?_, heq⟩
    · rw [hzero] at hversion
      exact hne hversion.symm
    · rw [hversion]
      exact hstatus
  fresh l hl v hv hle := by
    obtain ⟨i, hi, hshows, hreturned⟩ := h.loads.exists_stage hl
    obtain ⟨snap, hsnap⟩ := exists_publication (show i ≠ 0 by omega) hi
    obtain ⟨-, hversion, -⟩ := publication_eq_some hsnap hi hlt
    refine ⟨snap, hshows.trans hsnap, ?_⟩
    omega
  versionsAscending reader := by
    apply List.Pairwise.filter
    refine h.versions.pairwise fun i j l l' hij hj hl hl' => ?_
    have hi : i ≤ statuses.length := Nat.le_trans hij hj
    rw [hl.1, hl'.1, UInt64.le_iff_toNat_le, toNat_ofNat_of_le hi hlt, toNat_ofNat_of_le hj hlt]
    exact hij
  versionsFresh l hl := by
    obtain ⟨i, hi, hshows, hreturned⟩ := h.versions.exists_stage hl
    rw [hshows, toNat_ofNat_of_le hi hlt]
    exact hreturned

/-- What readers see follows the publications in every run, and so do the versions as long as there are fewer
than `2 ^ 64`. -/
theorem publishes_in_order (statuses : List RuntimeStatus) (readers : List (List ReaderCall))
    (c : Config PublisherState PublisherAction) (h : Reaches program anyStep (init statuses readers) c) :
    FollowsPublications statuses c.shared ∧
      (statuses.length < 2 ^ 64 → VersionsInOrder statuses c.shared) := by
  have hfollows := followsPublications_of_reaches h
  exact ⟨hfollows, fun hlt => .of_follows hfollows hlt⟩

/-! ## Calls that are not interrupted -/

/-- The steps of `publish`, one after the other, are `publish`. -/
theorem alone_publish (status : RuntimeStatus) (s : PublisherState) (rest : List PublisherAction) :
    Alone program (.publish status :: rest) s rest (s.published status) := by
  refine .move () rfl (.move () rfl (.move () rfl (.move () rfl (.move () rfl (.move () rfl ?_)))))
  exact .refl rest (s.published status)

theorem alone_load (reader : ℕ) (s : PublisherState) (rest : List PublisherAction) :
    Alone program (.load reader :: rest) s rest (s.loaded reader) :=
  .move () rfl (.move () rfl (.refl rest (s.loaded reader)))

theorem alone_publishes (n : ℕ) (status : RuntimeStatus) (s : PublisherState) :
    Alone program (List.replicate n (.publish status)) s [] ((PublisherState.published status)^[n] s) := by
  induction n generalizing s with
  | zero => exact .refl [] s
  | succ n ih => exact (alone_publish status s _).trans (ih (s.published status))

theorem version_published (n : ℕ) (status : RuntimeStatus) (s : PublisherState) :
    ((PublisherState.published status)^[n] s).publisher.version = s.publisher.version + UInt64.ofNat n := by
  induction n generalizing s with
  | zero => exact (UInt64.add_zero _).symm
  | succ n ih =>
    rw [Function.iterate_succ_apply, ih, UInt64.ofNat_add, UInt64.add_comm (UInt64.ofNat n),
      ← UInt64.add_assoc]
    rfl

theorem loads_published (n : ℕ) (status : RuntimeStatus) (s : PublisherState) :
    ((PublisherState.published status)^[n] s).loads = s.loads := by
  induction n generalizing s with
  | zero => rfl
  | succ n ih =>
    rw [Function.iterate_succ_apply, ih]
    rfl

/-- After a call of `publish`, its snapshot is there to load. -/
theorem snapshot_published (n : ℕ) (status : RuntimeStatus) (s : PublisherState) :
    ((PublisherState.published status)^[n + 1] s).publisher.snapshot =
      some { status with snapshot_version := s.publisher.version + UInt64.ofNat (n + 1) } := by
  rw [← version_published (n + 1) status s, Function.iterate_succ_apply']
  rfl

/-- A reader loads after the first of `n + 2` publications of one status, and again after the last. -/
theorem reaches_two_loads (n : ℕ) (status : RuntimeStatus) : ∃ c,
    Reaches program anyStep (init (List.replicate (n + 2) status) [[.load, .load]]) c ∧
      ∃ returned returned', c.shared.loads =
        [⟨0, returned, some { status with snapshot_version := 1 }⟩,
          ⟨0, returned', some { status with snapshot_version := 1 + UInt64.ofNat (n + 1) }⟩] := by
  -- the states after the first publication, the first load, and the other publications
  let s1 : PublisherState := PublisherState.published status {}
  let s2 : PublisherState := s1.loaded 0
  let s3 : PublisherState := (PublisherState.published status)^[n + 1] s2
  have hinit : init (List.replicate (n + 2) status) [[.load, .load]] =
      ⟨{}, [.publish status :: List.replicate (n + 1) (.publish status), [.load 0, .load 0]]⟩ := by
    unfold init
    rw [List.map_replicate, List.replicate_succ]
    rfl
  have hfirst := (alone_publish status {} (List.replicate (n + 1) (.publish status))).reaches
    [] [[.load 0, .load 0]]
  have hload := (alone_load 0 s1 [.load 0]).reaches [List.replicate (n + 1) (.publish status)] []
  have hothers := (alone_publishes (n + 1) status s2).reaches [] [[.load 0]]
  have hload' := (alone_load 0 s3 []).reaches [[]] []
  refine ⟨⟨s3.loaded 0, [[], []]⟩, ?_, s1.returned.length, s3.returned.length, ?_⟩
  · rw [hinit]
    exact hfirst.trans (hload.trans (hothers.trans hload'))
  · have hloads : s3.loads = s2.loads := loads_published (n + 1) status s2
    have hsnapshot : s3.publisher.snapshot =
        some { status with snapshot_version := 1 + UInt64.ofNat (n + 1) } := snapshot_published n status s2
    show s3.loads ++ [⟨0, s3.returned.length, s3.publisher.snapshot⟩] = _
    rw [hloads, hsnapshot]
    rfl

end

/-- The daemon as it runs. -/
def running : RuntimeStatus where
  metrics := {}
  health := { silence_duration_ms := 0 }
  state := .running
  packet := {}

/-- One publication, and a load after it. -/
theorem publishes_in_order_once :
    FollowsPublications [running] (PublisherState.loaded 0 (PublisherState.published running {})) ∧
      VersionsInOrder [running] (PublisherState.loaded 0 (PublisherState.published running {})) := by
  have hrun : Reaches program anyStep (init [running] [[.load]])
      ⟨PublisherState.loaded 0 (PublisherState.published running {}), [[], []]⟩ :=
    ((alone_publish running {} []).reaches [] [[.load 0]]).trans
      ((alone_load 0 (PublisherState.published running {}) []).reaches [[]] [])
  have horder := publishes_in_order [running] [[.load]] _ hrun
  exact ⟨horder.1, horder.2 (by decide)⟩

/-- The publication number `2 ^ 64` has version 0, and follows one with version 1. -/
theorem versions_wrap : ∃ c,
    Reaches program anyStep (init (List.replicate (2 ^ 64) running) [[.load, .load]]) c ∧
      ¬ VersionsInOrder (List.replicate (2 ^ 64) running) c.shared := by
  obtain ⟨c, hc, returned, returned', hloads⟩ := reaches_two_loads (2 ^ 64 - 2) running
  refine ⟨c, hc, fun horder => ?_⟩
  have hascending := horder.ascending 0
  have hboth : c.shared.loadsOf 0 = c.shared.loads := by
    unfold PublisherState.loadsOf
    rw [hloads]
    rfl
  rw [hboth, hloads, List.pairwise_pair] at hascending
  obtain ⟨snap, hsnap, hle⟩ := hascending { running with snapshot_version := 1 } rfl
  cases hsnap
  exact absurd hle (by decide)

end SnapshotPublisher

end EdgeNetSwitch
