import EdgeNetSwitch.Telemetry.SampleConservation
import EdgeNetSwitch.Threads.Proofs.ProgramProofs

/-!
# Proofs: the export queue conserves samples

Two invariants carry the result: the queue with its counter and its stamps is the one `DropOldest` leads
to (`QueueKept`), and the export thread has called every exporter with what it has taken, in order
(`WorkerAt`). That a `stop` comes before the exit of the thread is a third one (`StopSeen`).
-/

namespace EdgeNetSwitch

namespace TelemetryExportManager

open Threads DropOldest

variable {s s' : TelemetryExportManager} {a : ExportAction} {w : ExporterReply}
  {k : List ExportAction} {capacity : UInt64} {exporters : ℕ}
  {tr : List (TelemetryExportManager × ExportAction)}
  {c d : Config TelemetryExportManager ExportAction} {x : RuntimeMetrics}

theorem step_spec (h : Step program c a d) :
    ∃ w k, exec a w c.shared = some (d.shared, k) ∧ Replaces a k c d := h.spec

/-! ## The queue -/

/-- A sample as `enqueue` leaves it in the queue. -/
def stamped (x : RuntimeMetrics) (size : ℕ) (dropped : UInt64) : RuntimeMetrics :=
  { x with telemetry_queue_size := UInt64.ofNat size, telemetry_dropped_samples := dropped }

@[simp] theorem unstamped_stamped (x : RuntimeMetrics) (n : ℕ) (m : UInt64) :
    (stamped x n m).unstamped = x.unstamped := rfl

theorem enqueue_of_zero (h : s.capacity = 0) :
    s.enqueue x = { s with dropped_count := s.dropped_count + 1 } := if_pos h

theorem enqueue_of_lt (h : s.capacity ≠ 0) (hlt : s.queue.length < s.capacity.toNat) :
    s.enqueue x =
      { s with queue := s.queue ++ [stamped x (s.queue.length + 1) s.dropped_count] } := by
  rw [enqueue, if_neg h, if_neg (by omega)]
  rfl

theorem enqueue_of_full {y : RuntimeMetrics} {q : List RuntimeMetrics} (h : s.capacity ≠ 0)
    (hq : s.queue = y :: q) (hge : s.capacity.toNat ≤ s.queue.length) :
    s.enqueue x =
      { s with
        queue := q ++ [stamped x (q.length + 1) (s.dropped_count + 1)]
        dropped_count := s.dropped_count + 1 } := by
  rw [enqueue, if_neg h, if_pos hge]
  simp only [hq, List.tail_cons]
  rfl

theorem toNat_ne_zero (h : capacity ≠ 0) : capacity.toNat ≠ 0 := fun h0 =>
  h (UInt64.toNat_inj.1 h0)

theorem buffer_append (tr : List (TelemetryExportManager × ExportAction)) (s : TelemetryExportManager)
    (a : ExportAction) : buffer capacity (tr ++ [(s, a)]) = match a with
      | .enqueue x => DropOldest.step capacity.toNat (buffer capacity tr) (.offer x.unstamped)
      | .exportLoop => DropOldest.step capacity.toNat (buffer capacity tr) .poll
      | _ => buffer capacity tr := by
  have hops : queueOps (tr ++ [(s, a)]) = queueOps tr ++ (match a with
      | .enqueue x => some (Op.offer x.unstamped)
      | .exportLoop => some .poll
      | _ => none).toList := by
    unfold queueOps
    rw [List.filterMap_append]
    congr 1
  unfold buffer
  rw [hops]
  cases a <;> first | exact run_append .. | rw [Option.toList_none, List.append_nil]

theorem enqueued_append (tr : List (TelemetryExportManager × ExportAction))
    (s : TelemetryExportManager) (a : ExportAction) :
    enqueued (tr ++ [(s, a)]) = enqueued tr ++ enqueued [(s, a)] := List.filterMap_append

/-- What was offered is what was enqueued. -/
theorem offered_buffer (capacity : UInt64) (tr : List (TelemetryExportManager × ExportAction)) :
    (buffer capacity tr).offered = enqueued tr := by
  rw [buffer, offered_run, queueOps, enqueued, List.filterMap_filterMap]
  refine List.filterMap_congr fun y _ => ?_
  obtain ⟨s, a⟩ := y
  cases a <;> rfl

/-- The queue, its counter and its stamps. -/
structure QueueKept (capacity : UInt64) (exporters : ℕ)
    (tr : List (TelemetryExportManager × ExportAction)) (s : TelemetryExportManager) : Prop where
  capacity_eq : s.capacity = capacity
  exporters_eq : s.exporters = exporters
  queue : s.queue.map RuntimeMetrics.unstamped = (buffer capacity tr).queue
  dropped_count : s.dropped_count = UInt64.ofNat (buffer capacity tr).dropped.length
  sizes : ∀ x ∈ s.queue, 1 ≤ x.telemetry_queue_size.toNat ∧
    x.telemetry_queue_size.toNat ≤ capacity.toNat
  counts : ∃ counts : List ℕ,
    s.queue.map RuntimeMetrics.telemetry_dropped_samples = counts.map UInt64.ofNat ∧
      counts.Pairwise (· ≤ ·) ∧ ∀ n ∈ counts, n ≤ (buffer capacity tr).dropped.length

theorem QueueKept.length_eq (hs : QueueKept capacity exporters tr s) :
    s.queue.length = (buffer capacity tr).queue.length := by
  rw [← hs.queue, List.length_map]

theorem QueueKept.length_le (hs : QueueKept capacity exporters tr s) :
    s.queue.length ≤ capacity.toNat := by
  rw [hs.length_eq]
  exact length_queue_le _

/-- The stamps of a sample added to a queue that has room for it. -/
theorem stamps_push {q : List RuntimeMetrics} {n m : ℕ}
    (hsizes : ∀ x ∈ q, 1 ≤ x.telemetry_queue_size.toNat ∧ x.telemetry_queue_size.toNat ≤ capacity.toNat)
    (hcounts : ∃ counts : List ℕ,
      q.map RuntimeMetrics.telemetry_dropped_samples = counts.map UInt64.ofNat ∧
        counts.Pairwise (· ≤ ·) ∧ ∀ i ∈ counts, i ≤ n)
    (hlt : q.length < capacity.toNat) (hnm : n ≤ m) (x : RuntimeMetrics) :
    (∀ y ∈ q ++ [stamped x (q.length + 1) (UInt64.ofNat m)], 1 ≤ y.telemetry_queue_size.toNat ∧
      y.telemetry_queue_size.toNat ≤ capacity.toNat) ∧
    ∃ counts : List ℕ, (q ++ [stamped x (q.length + 1) (UInt64.ofNat m)]).map
        RuntimeMetrics.telemetry_dropped_samples = counts.map UInt64.ofNat ∧
      counts.Pairwise (· ≤ ·) ∧ ∀ i ∈ counts, i ≤ m := by
  obtain ⟨counts, heq, hsorted, hle⟩ := hcounts
  refine ⟨fun y hy => ?_, counts ++ [m], ?_, ?_, fun i hi => ?_⟩
  · rcases List.mem_append.1 hy with hy | hy
    · exact hsizes y hy
    · rw [List.mem_singleton.1 hy]
      have hcap := capacity.toNat_lt
      have hsize : (UInt64.ofNat (q.length + 1)).toNat = q.length + 1 := by
        rw [UInt64.toNat_ofNat']
        exact Nat.mod_eq_of_lt (by omega)
      show 1 ≤ (UInt64.ofNat (q.length + 1)).toNat ∧ (UInt64.ofNat (q.length + 1)).toNat ≤ _
      omega
  · rw [List.map_append, heq, List.map_append]
    rfl
  · rw [List.pairwise_append]
    refine ⟨hsorted, List.pairwise_singleton _ _, fun i hi j hj => ?_⟩
    rw [List.mem_singleton.1 hj]
    exact (hle i hi).trans hnm
  · rcases List.mem_append.1 hi with hi | hi
    · exact (hle i hi).trans hnm
    · exact (List.mem_singleton.1 hi).le

/-- The stamps that are left when the oldest sample goes. -/
theorem stamps_tail {y : RuntimeMetrics} {q : List RuntimeMetrics} {n : ℕ}
    (hsizes : ∀ x ∈ y :: q, 1 ≤ x.telemetry_queue_size.toNat ∧
      x.telemetry_queue_size.toNat ≤ capacity.toNat)
    (hcounts : ∃ counts : List ℕ,
      (y :: q).map RuntimeMetrics.telemetry_dropped_samples = counts.map UInt64.ofNat ∧
        counts.Pairwise (· ≤ ·) ∧ ∀ i ∈ counts, i ≤ n) :
    (∀ x ∈ q, 1 ≤ x.telemetry_queue_size.toNat ∧ x.telemetry_queue_size.toNat ≤ capacity.toNat) ∧
    ∃ counts : List ℕ,
      q.map RuntimeMetrics.telemetry_dropped_samples = counts.map UInt64.ofNat ∧
        counts.Pairwise (· ≤ ·) ∧ ∀ i ∈ counts, i ≤ n := by
  obtain ⟨counts, heq, hsorted, hle⟩ := hcounts
  cases counts with
  | nil => simp at heq
  | cons i counts =>
    exact ⟨fun x hx => hsizes x (List.mem_cons_of_mem _ hx), counts, (List.cons.inj heq).2,
      (List.pairwise_cons.1 hsorted).2, fun j hj => hle j (List.mem_cons_of_mem _ hj)⟩

theorem QueueKept.enqueue (hs : QueueKept capacity exporters tr s) (x : RuntimeMetrics) :
    QueueKept capacity exporters (tr ++ [(s, .enqueue x)]) (s.enqueue x) := by
  have hcap := hs.capacity_eq
  have hbuffer := @buffer_append capacity tr s (.enqueue x)
  have hlen := hs.length_eq
  simp only at hbuffer
  by_cases hzero : s.capacity = 0
  · have hcap0 : capacity.toNat = 0 := by
      rw [← hcap, hzero]
      rfl
    have hnil : (buffer capacity tr).queue = [] := by
      have hle : (buffer capacity tr).queue.length ≤ capacity.toNat := length_queue_le (queueOps tr)
      exact List.eq_nil_of_length_eq_zero (by omega)
    rw [step_offer_of_zero hcap0 hnil] at hbuffer
    rw [enqueue_of_zero hzero]
    have hdropped : (buffer capacity (tr ++ [(s, .enqueue x)])).dropped =
        (buffer capacity tr).dropped ++ [x.unstamped] := by
      rw [hbuffer]
      simp [Buffer.dropped, Buffer.gone?]
    have hlength := congrArg List.length hdropped
    rw [List.length_append, List.length_singleton] at hlength
    obtain ⟨counts, heq, hsorted, hle⟩ := hs.counts
    refine ⟨hcap, hs.exporters_eq, by rw [hbuffer]; exact hs.queue, ?_, hs.sizes, counts, heq, hsorted,
      fun i hi => ?_⟩
    · rw [hlength, UInt64.ofNat_add, ← hs.dropped_count]
      rfl
    · have := hle i hi
      omega
  · have hpos := toNat_ne_zero hzero
    rw [hcap] at hpos
    by_cases hlt : s.queue.length < s.capacity.toNat
    · rw [step_offer_of_lt (by rw [← hlen, ← hcap]; exact hlt)] at hbuffer
      rw [enqueue_of_lt hzero hlt, hs.dropped_count]
      have hdropped : (buffer capacity (tr ++ [(s, .enqueue x)])).dropped =
          (buffer capacity tr).dropped := by rw [hbuffer]; rfl
      obtain ⟨hsizes, hcounts⟩ := stamps_push hs.sizes hs.counts (hcap ▸ hlt) le_rfl x
      refine ⟨hcap, hs.exporters_eq, ?_, ?_, hsizes, ?_⟩
      · rw [hbuffer, List.map_append, hs.queue]
        rfl
      · rw [hdropped]
      · rw [hdropped]
        exact hcounts
    · cases hq : s.queue with
      | nil =>
        rw [hq, List.length_nil, hcap] at hlt
        omega
      | cons y q =>
        have hqueue := hs.queue
        rw [hq, List.map_cons] at hqueue
        have hfull : capacity.toNat ≤ (buffer capacity tr).queue.length := by
          rw [← hlen, ← hcap]
          exact Nat.not_lt.1 hlt
        rw [step_offer_of_full hfull hqueue.symm] at hbuffer
        have hdropped : (buffer capacity (tr ++ [(s, .enqueue x)])).dropped =
            (buffer capacity tr).dropped ++ [y.unstamped] := by
          rw [hbuffer]
          simp [Buffer.dropped, Buffer.gone?]
        have hlength := congrArg List.length hdropped
        rw [List.length_append, List.length_singleton] at hlength
        have hcount : s.dropped_count + 1 =
            UInt64.ofNat ((buffer capacity tr).dropped.length + 1) := by
          rw [UInt64.ofNat_add, ← hs.dropped_count]
          rfl
        rw [enqueue_of_full hzero hq (Nat.not_lt.1 hlt), hcount]
        have hle := hs.length_le
        rw [hq, List.length_cons] at hle
        obtain ⟨hsizes, hcounts⟩ := stamps_tail (hq ▸ hs.sizes) (hq ▸ hs.counts)
        obtain ⟨hsizes', hcounts'⟩ := stamps_push hsizes hcounts hle (Nat.le_succ _) x
        refine ⟨hcap, hs.exporters_eq, ?_, ?_, hsizes', ?_⟩
        · rw [hbuffer, List.map_append]
          rfl
        · rw [hlength]
        · rw [hlength]
          exact hcounts'

/-- The other actions leave the queue alone, or take the oldest sample. -/
theorem exec_queue (h : exec a w s = some (s', k)) (ha : ∀ x, a ≠ .enqueue x) :
    s'.capacity = s.capacity ∧ s'.exporters = s.exporters ∧ s'.dropped_count = s.dropped_count ∧
      (s'.queue = s.queue ∨ ∃ x, a = .exportLoop ∧ s.queue = x :: s'.queue) := by
  cases a with
  | enqueue x => exact absurd rfl (ha x)
  | exportLoop =>
    simp only [exec] at h
    split at h
    · rename_i x q hq
      cases h
      exact ⟨rfl, rfl, rfl, Or.inr ⟨x, rfl, hq⟩⟩
    · split_ifs at h
      cases h
      exact ⟨rfl, rfl, rfl, Or.inl rfl⟩
  | exportSample x todo =>
    cases todo <;> cases h <;> exact ⟨rfl, rfl, rfl, Or.inl rfl⟩
  | join =>
    simp only [exec] at h
    split at h <;> cases h <;> exact ⟨rfl, rfl, rfl, Or.inl rfl⟩
  | start | spawn | stop | exportThread =>
    simp only [exec] at h
    split_ifs at h <;> cases h <;> exact ⟨rfl, rfl, rfl, Or.inl rfl⟩

theorem QueueKept.exec (hs : QueueKept capacity exporters tr s) (h : exec a w s = some (s', k)) :
    QueueKept capacity exporters (tr ++ [(s, a)]) s' := by
  by_cases henq : ∃ x, a = .enqueue x
  · obtain ⟨x, rfl⟩ := henq
    cases h
    exact hs.enqueue x
  · have henq' : ∀ x, a ≠ .enqueue x := fun x ha => henq ⟨x, ha⟩
    obtain ⟨hcap, hexp, hcount, hqueue⟩ := exec_queue h henq'
    rcases hqueue with hqueue | ⟨x, rfl, hqueue⟩
    · have hsame : (buffer capacity (tr ++ [(s, a)])).queue = (buffer capacity tr).queue ∧
          (buffer capacity (tr ++ [(s, a)])).dropped = (buffer capacity tr).dropped := by
        rw [buffer_append]
        cases a with
        | enqueue x => exact absurd rfl (henq' x)
        | exportLoop =>
          -- the loop leaves the queue alone when it is empty
          simp only [TelemetryExportManager.exec] at h
          split at h
          · rename_i x q hq
            cases h
            rw [hq] at hqueue
            exact absurd hqueue.symm (List.cons_ne_self x q)
          · rename_i hq
            have hnil := hs.queue
            rw [hq, List.map_nil] at hnil
            rw [step_poll_nil hnil.symm]
            exact ⟨rfl, rfl⟩
        | _ => exact ⟨rfl, rfl⟩
      exact ⟨hcap.trans hs.capacity_eq, hexp.trans hs.exporters_eq, by rw [hqueue, hsame.1]; exact hs.queue,
        by rw [hcount, hsame.2]; exact hs.dropped_count, by rw [hqueue]; exact hs.sizes,
        by rw [hqueue, hsame.2]; exact hs.counts⟩
    · have hq := hs.queue
      rw [hqueue, List.map_cons] at hq
      have hbuffer : buffer capacity (tr ++ [(s, .exportLoop)]) =
          DropOldest.step capacity.toNat (buffer capacity tr) .poll := buffer_append tr s _
      rw [step_poll_cons hq.symm] at hbuffer
      have hdropped : (buffer capacity (tr ++ [(s, .exportLoop)])).dropped =
          (buffer capacity tr).dropped := by
        rw [hbuffer]
        simp [Buffer.dropped, Buffer.gone?]
      obtain ⟨hsizes, hcounts⟩ := stamps_tail (hqueue ▸ hs.sizes) (hqueue ▸ hs.counts)
      exact ⟨hcap.trans hs.capacity_eq, hexp.trans hs.exporters_eq, by rw [hbuffer],
        by rw [hcount, hdropped]; exact hs.dropped_count, hsizes, by rw [hdropped]; exact hcounts⟩

/-! ## The export thread -/

/-- The actions of the other threads. -/
def OfCaller : ExportAction → Prop
  | .enqueue _ | .start | .spawn | .stop | .join => True
  | _ => False

/-- What the export thread has on its stack and in hand: nothing, its loop, or a sample with which the
first `m` exporters have been called. -/
inductive WorkerAt (s : TelemetryExportManager) : List ExportAction → List RuntimeMetrics → Prop where
  | idle (h : s.export_thread ≠ .alive) (hcalls : ∀ i < s.exporters, callsOf s i = s.exported) :
    WorkerAt s [.exportThread] []
  | loop (h : s.export_thread = .alive) (hcalls : ∀ i < s.exporters, callsOf s i = s.exported) :
    WorkerAt s [.exportLoop] []
  | exporting (es : List ExportAction) (hes : ∀ a ∈ es, ∃ y, a = .enqueue y) (x : RuntimeMetrics)
    (m : ℕ) (hm : m ≤ s.exporters) (h : s.export_thread = .alive)
    (hcalls : ∀ i < s.exporters, callsOf s i = s.exported ++ if i < m then [x] else []) :
    WorkerAt s (es ++ [.exportSample x ((List.range s.exporters).drop m), .exportLoop]) [x]

theorem ofCaller_of_isCall (h : IsCall a) : OfCaller a := by
  cases a <;> trivial

/-- The other threads do not touch what the export thread does. -/
theorem exec_ofCaller (ha : OfCaller a) (h : exec a w s = some (s', k)) :
    (∀ b ∈ k, OfCaller b) ∧ s'.calls = s.calls ∧ s'.exported = s.exported ∧
      s'.exporters = s.exporters ∧ (s'.export_thread = .alive ↔ s.export_thread = .alive) := by
  cases a with
  | enqueue x =>
    cases h
    refine ⟨by simp, ?_⟩
    unfold enqueue
    split_ifs <;> exact ⟨rfl, rfl, rfl, Iff.rfl⟩
  | start | stop =>
    simp only [exec] at h
    split_ifs at h <;> cases h <;> exact ⟨by simp [OfCaller], rfl, rfl, rfl, Iff.rfl⟩
  | spawn =>
    simp only [exec] at h
    split_ifs at h with habsent
    cases h
    refine ⟨by simp, rfl, rfl, rfl, ?_⟩
    rcases habsent with habsent | habsent <;> simp [habsent]
  | join =>
    simp only [exec] at h
    split at h <;> cases h
    · exact ⟨by simp, rfl, rfl, rfl, Iff.rfl⟩
    · exact ⟨by simp, rfl, rfl, rfl, Iff.rfl⟩
    · rename_i hexited
      exact ⟨by simp, rfl, rfl, rfl, by simp [hexited]⟩
  | _ => exact ha.elim

/-- The calls of one exporter. -/
theorem callsOf_congr (h : s'.calls = s.calls) (i : ℕ) : callsOf s' i = callsOf s i := by
  rw [callsOf, callsOf, h]

theorem WorkerAt.congr {t : List ExportAction} {l : List RuntimeMetrics} (ht : WorkerAt s t l)
    (hcalls : s'.calls = s.calls) (hexported : s'.exported = s.exported)
    (hexporters : s'.exporters = s.exporters)
    (halive : s'.export_thread = .alive ↔ s.export_thread = .alive) : WorkerAt s' t l := by
  cases ht with
  | idle h hc =>
    refine .idle (fun h' => h (halive.1 h')) fun i hi => ?_
    rw [callsOf_congr hcalls, hexported]
    exact hc i (hexporters ▸ hi)
  | loop h hc =>
    refine .loop (halive.2 h) fun i hi => ?_
    rw [callsOf_congr hcalls, hexported]
    exact hc i (hexporters ▸ hi)
  | exporting es hes x m hm h hc =>
    rw [← hexporters] at hm ⊢
    refine .exporting es hes x m hm (halive.2 h) fun i hi => ?_
    rw [callsOf_congr hcalls, hexported]
    exact hc i (hexporters ▸ hi)

theorem buffer_taken_of_ne (ha : a ≠ .exportLoop) :
    (buffer capacity (tr ++ [(s, a)])).taken = (buffer capacity tr).taken := by
  rw [buffer_append]
  cases a with
  | enqueue x =>
    have hstep := steps capacity.toNat (buffer capacity tr) (.offer x.unstamped)
    simp only
    generalize DropOldest.step capacity.toNat (buffer capacity tr) (.offer x.unstamped) = s' at hstep ⊢
    cases hstep <;> simp [Buffer.taken, Buffer.gone?]
  | exportLoop => exact absurd rfl ha
  | _ => rfl

/-- A step of the export thread. -/
theorem WorkerAt.exec {rest : List ExportAction} {l : List RuntimeMetrics}
    (ht : WorkerAt s (a :: rest) l) (hq : QueueKept capacity exporters tr s)
    (htaken : (s.exported ++ l).map RuntimeMetrics.unstamped = (buffer capacity tr).taken)
    (h : exec a w s = some (s', k)) : ∃ l', WorkerAt s' (k ++ rest) l' ∧
      (s'.exported ++ l').map RuntimeMetrics.unstamped =
        (buffer capacity (tr ++ [(s, a)])).taken := by
  generalize hstack : a :: rest = t at ht
  cases ht with
  | idle hidle hcalls =>
    obtain ⟨rfl, rfl⟩ := List.cons.inj hstack
    simp only [TelemetryExportManager.exec] at h
    split_ifs at h
    cases h
    refine ⟨[], .loop rfl hcalls, ?_⟩
    rw [buffer_taken_of_ne (by simp)]
    exact htaken
  | loop halive hcalls =>
    obtain ⟨rfl, rfl⟩ := List.cons.inj hstack
    have hbuffer : buffer capacity (tr ++ [(s, .exportLoop)]) =
        DropOldest.step capacity.toNat (buffer capacity tr) .poll := buffer_append tr s _
    have hqueue := hq.queue
    simp only [TelemetryExportManager.exec] at h
    split at h
    · rename_i x q hpop
      cases h
      refine ⟨[x], .exporting [] (by simp) x 0 (Nat.zero_le _) halive fun i hi => ?_, ?_⟩
      · rw [if_neg (Nat.not_lt_zero i), List.append_nil]
        exact hcalls i hi
      · rw [hpop, List.map_cons] at hqueue
        rw [List.append_nil] at htaken
        rw [hbuffer, step_poll_cons hqueue.symm, List.map_append, htaken]
        simp [Buffer.taken, Buffer.gone?]
    · rename_i hempty
      split_ifs at h
      cases h
      refine ⟨[], .idle (by simp) hcalls, ?_⟩
      rw [hempty, List.map_nil] at hqueue
      rw [hbuffer, step_poll_nil hqueue.symm]
      exact htaken
  | exporting es hes x m hm halive hcalls =>
    cases es with
    | cons e es =>
      obtain ⟨rfl, rfl⟩ := List.cons.inj hstack
      obtain ⟨y, rfl⟩ := hes _ (List.mem_cons_self ..)
      have ha : OfCaller (.enqueue y) := trivial
      obtain ⟨-, hc, he, hn, hal⟩ := exec_ofCaller ha h
      cases h
      refine ⟨[x], WorkerAt.congr (.exporting es
        (fun b hb => hes b (List.mem_cons_of_mem _ hb)) x m hm halive hcalls) hc he hn hal, ?_⟩
      rw [he, buffer_taken_of_ne (by simp)]
      exact htaken
    | nil =>
      obtain ⟨rfl, rfl⟩ := List.cons.inj hstack
      rw [buffer_taken_of_ne (by simp)]
      by_cases hlt : m < s.exporters
      · -- the next exporter is called
        have hdrop : (List.range s.exporters).drop m =
            m :: (List.range s.exporters).drop (m + 1) := by
          rw [List.drop_eq_getElem_cons (by simpa using hlt), List.getElem_range]
        rw [hdrop] at h
        cases h
        refine ⟨[x], ?_, htaken⟩
        rw [List.append_assoc]
        refine WorkerAt.exporting (s := { s with calls := _, errors := _ }) (w.enqueued.map .enqueue)
          ?_ x (m + 1) hlt halive fun i hi => ?_
        · intro b hb
          obtain ⟨y, -, rfl⟩ := List.mem_map.1 hb
          exact ⟨y, rfl⟩
        · have hold := hcalls i hi
          show (s.calls ++ [(m, x)]).filterMap _ = s.exported ++ _
          rw [List.filterMap_append, show s.calls.filterMap _ = _ from hold]
          rcases Nat.lt_trichotomy i m with him | rfl | him
          · simp [him, Nat.lt_succ_of_lt him, Nat.ne_of_gt him]
          · simp
          · rw [if_neg (by omega), if_neg (by omega)]
            simp [Nat.ne_of_lt him]
      · -- all exporters have been called
        have hdrop : (List.range s.exporters).drop m = [] :=
          List.drop_eq_nil_of_le (by rw [List.length_range]; omega)
        rw [hdrop] at h
        cases h
        refine ⟨[], .loop halive fun i hi => ?_, ?_⟩
        · have hall := hcalls i hi
          rw [if_pos (by simp only at hi; omega)] at hall
          exact hall
        · rw [List.append_nil]
          exact htaken

/-- One thread exports, and has called the exporters with what it has taken. -/
structure Exporting (capacity : UInt64) (exporters : ℕ)
    (tr : List (TelemetryExportManager × ExportAction))
    (c : Config TelemetryExportManager ExportAction) : Prop where
  kept : QueueKept capacity exporters tr c.shared
  threads : ∃ tw ts l, c.threads = tw :: ts ∧ (∀ t ∈ ts, ∀ a ∈ t, OfCaller a) ∧
    WorkerAt c.shared tw l ∧
    (c.shared.exported ++ l).map RuntimeMetrics.unstamped = (buffer capacity tr).taken

theorem Exporting.step (hc : Exporting capacity exporters tr c) (h : Step program c a d) :
    Exporting capacity exporters (tr ++ [(c.shared, a)]) d := by
  obtain ⟨tw, ts, l, hthreads, hcallers, hworker, htaken⟩ := hc.threads
  obtain ⟨w, k, he, hr⟩ := step_spec h
  refine ⟨hc.kept.exec he, ?_⟩
  rcases hr.cons hthreads with ⟨rest, rfl, hd⟩ | ⟨ts', hd, hr'⟩
  · obtain ⟨l', hworker', htaken'⟩ := hworker.exec hc.kept htaken he
    exact ⟨_, _, l', hd, hcallers, hworker', htaken'⟩
  · have ha : OfCaller a := by
      obtain ⟨t, ht, b, hb, rfl⟩ := hr'.pending
      exact hcallers t ht b hb
    obtain ⟨hk, hcalls, hexported, hexporters, halive⟩ := exec_ofCaller ha he
    refine ⟨_, _, l, hd, ?_, hworker.congr hcalls hexported hexporters halive, ?_⟩
    · refine hr'.stacks (S := fun t => ∀ a ∈ t, OfCaller a) hcallers fun rest ht b hb => ?_
      rcases List.mem_append.1 hb with hb | hb
      · exact hk b hb
      · exact ht b (List.mem_cons_of_mem _ hb)
    · rw [hexported, buffer_taken_of_ne (by rintro rfl; exact ha)]
      exact htaken

/-- What is held is what the export thread has in hand. -/
theorem WorkerAt.flatMap_inHand {t : List ExportAction} {l : List RuntimeMetrics}
    (ht : WorkerAt s t l) : t.flatMap inHand = l := by
  cases ht with
  | idle | loop => rfl
  | exporting es hes x m =>
    have hnil : es.flatMap inHand = [] := by
      rw [List.flatMap_eq_nil_iff]
      intro b hb
      obtain ⟨y, rfl⟩ := hes b hb
      rfl
    rw [List.flatMap_append, hnil]
    rfl

theorem held_eq {tw : List ExportAction} {ts : List (List ExportAction)} {l : List RuntimeMetrics}
    (hthreads : c.threads = tw :: ts) (hcallers : ∀ t ∈ ts, ∀ a ∈ t, OfCaller a)
    (hworker : WorkerAt c.shared tw l) : held c = l := by
  have hnil : ts.flatMap (List.flatMap inHand) = [] := by
    rw [List.flatMap_eq_nil_iff]
    intro t ht
    rw [List.flatMap_eq_nil_iff]
    intro b hb
    have hb := hcallers t ht b hb
    cases b <;> first | rfl | exact hb.elim
  rw [held, hthreads, List.flatMap_cons, hnil, List.append_nil]
  exact hworker.flatMap_inHand

/-! ## Exit -/

theorem Stopped.append {tr' : List (TelemetryExportManager × ExportAction)} (h : Stopped tr) :
    Stopped (tr ++ tr') := by
  obtain ⟨s, hs, hmem⟩ := h
  exact ⟨s, hs, List.mem_append_left _ hmem⟩

/-- The actions of a thread that is started, or is being started. -/
def Launches (a : ExportAction) : Prop := a = .spawn ∨ a = .exportLoop

/-- A `stop` comes before the exit of the export thread, and what is queued after it was enqueued after
that `stop`. -/
structure StopSeen (tr : List (TelemetryExportManager × ExportAction))
    (c : Config TelemetryExportManager ExportAction) : Prop where
  seen : c.shared.running = true ∨ Stopped tr ∨
    (c.shared.export_thread = .absent ∧ ¬ c.Pending Launches)
  exited : c.shared.export_thread = .exited ∨ c.shared.export_thread = .joined →
    ∃ tr₁ tr₂, tr = tr₁ ++ tr₂ ∧ Stopped tr₁ ∧
      c.shared.queue.map RuntimeMetrics.unstamped <:+ enqueued tr₂

/-- Only `stop` makes a running manager stop. -/
theorem exec_running (h : exec a w s = some (s', k)) (hrun : s.running = true) :
    s'.running = true ∨ a = .stop := by
  cases a with
  | enqueue x =>
    cases h
    left
    unfold enqueue
    split_ifs <;> exact hrun
  | stop => exact Or.inr rfl
  | join =>
    simp only [exec] at h
    split at h <;> cases h <;> exact Or.inl hrun
  | exportLoop =>
    simp only [exec] at h
    split at h
    · cases h
      exact Or.inl hrun
    · rw [if_pos hrun] at h
      cases h
  | exportSample x todo => cases todo <;> cases h <;> exact Or.inl hrun
  | start | spawn | exportThread =>
    simp only [exec] at h
    split_ifs at h
    all_goals
      cases h
      exact Or.inl hrun

/-- Without a thread, nothing but `start` leads to one. -/
theorem exec_absent (h : exec a w s = some (s', k)) (ha : ¬ Launches a)
    (habsent : s.export_thread = .absent) :
    s'.running = true ∨ (s'.export_thread = .absent ∧ ∀ b ∈ k, ¬ Launches b) := by
  cases a with
  | enqueue x =>
    cases h
    refine Or.inr ⟨?_, by simp⟩
    unfold enqueue
    split_ifs <;> exact habsent
  | start =>
    simp only [exec] at h
    split_ifs at h with hrun <;> cases h
    · exact Or.inl hrun
    · exact Or.inl rfl
  | stop =>
    simp only [exec] at h
    split_ifs at h <;> cases h
    · exact Or.inr ⟨habsent, by simp [Launches]⟩
    · exact Or.inr ⟨habsent, by simp⟩
  | join =>
    simp only [exec, habsent] at h
    cases h
    exact Or.inr ⟨habsent, by simp⟩
  | exportThread =>
    rw [exec, habsent, if_neg (by simp)] at h
    cases h
  | exportSample x todo =>
    refine Or.inr ?_
    cases todo with
    | nil =>
      cases h
      exact ⟨habsent, by simp⟩
    | cons i todo =>
      cases h
      refine ⟨habsent, fun b hb => ?_⟩
      rcases List.mem_append.1 hb with hb | hb
      · obtain ⟨y, -, rfl⟩ := List.mem_map.1 hb
        simp [Launches]
      · rw [List.mem_singleton.1 hb]
        simp [Launches]
  | spawn => exact absurd (Or.inl rfl) ha
  | exportLoop => exact absurd (Or.inr rfl) ha

/-- A thread returns from `exportLoop` or is joined after that, or nothing of this happens. -/
theorem exec_exited (h : exec a w s = some (s', k))
    (hexited : s'.export_thread = .exited ∨ s'.export_thread = .joined) :
    (s.export_thread = .exited ∨ s.export_thread = .joined) ∨
      (a = .exportLoop ∧ s.running = false ∧ s'.queue = []) := by
  cases a with
  | enqueue x =>
    cases h
    left
    unfold enqueue at hexited
    split_ifs at hexited <;> exact hexited
  | exportLoop =>
    simp only [exec] at h
    split at h
    · cases h
      exact Or.inl hexited
    · rename_i hq
      split_ifs at h with hrun
      cases h
      exact Or.inr ⟨rfl, by simpa using hrun, hq⟩
  | exportSample x todo => cases todo <;> cases h <;> exact Or.inl hexited
  | join =>
    simp only [exec] at h
    split at h <;> cases h <;> first | exact Or.inl hexited | exact Or.inl (Or.inl ‹_›)
  | start | stop =>
    simp only [exec] at h
    split_ifs at h <;> cases h <;> exact Or.inl hexited
  | spawn | exportThread =>
    simp only [exec] at h
    split_ifs at h
    cases h
    simp at hexited

/-- The samples queued that were enqueued in the second part of a run still are after a step. -/
theorem QueueKept.suffix {tr₂ : List (TelemetryExportManager × ExportAction)}
    (hs : QueueKept capacity exporters tr s) (h : TelemetryExportManager.exec a w s = some (s', k))
    (hsuffix : s.queue.map RuntimeMetrics.unstamped <:+ enqueued tr₂) :
    s'.queue.map RuntimeMetrics.unstamped <:+ enqueued (tr₂ ++ [(s, a)]) := by
  rw [enqueued_append]
  by_cases henq : ∃ x, a = .enqueue x
  · obtain ⟨x, rfl⟩ := henq
    cases h
    have hx : enqueued [(s, .enqueue x)] = [x.unstamped] := rfl
    rw [hx]
    by_cases hzero : s.capacity = 0
    · have hle := hs.length_le
      rw [← hs.capacity_eq, hzero] at hle
      rw [enqueue_of_zero hzero, List.eq_nil_of_length_eq_zero (Nat.le_zero.1 hle)]
      exact List.nil_suffix
    · by_cases hlt : s.queue.length < s.capacity.toNat
      · rw [enqueue_of_lt hzero hlt, List.map_append]
        exact (List.suffix_append_inj_of_length_eq rfl).2 ⟨hsuffix, rfl⟩
      · cases hq : s.queue with
        | nil =>
          rw [hq, List.length_nil] at hlt
          exact absurd (Nat.pos_of_ne_zero (toNat_ne_zero hzero)) hlt
        | cons y q =>
          rw [enqueue_of_full hzero hq (Nat.not_lt.1 hlt), List.map_append]
          rw [hq, List.map_cons] at hsuffix
          exact (List.suffix_append_inj_of_length_eq rfl).2
            ⟨(List.suffix_cons _ _).trans hsuffix, rfl⟩
  · have hx : enqueued [(s, a)] = [] := by
      cases a <;> first | rfl | exact absurd ⟨_, rfl⟩ henq
    rw [hx, List.append_nil]
    obtain ⟨-, -, -, hq | ⟨x, -, hq⟩⟩ := exec_queue h fun x hx => henq ⟨x, hx⟩
    · rw [hq]
      exact hsuffix
    · rw [hq, List.map_cons] at hsuffix
      exact (List.suffix_cons _ _).trans hsuffix

theorem StopSeen.step (hc : StopSeen tr c) (hk : QueueKept capacity exporters tr c.shared)
    (h : Step program c a d) : StopSeen (tr ++ [(c.shared, a)]) d := by
  obtain ⟨w, k, he, hr⟩ := step_spec h
  have hpending : Launches a → ¬ (c.shared.export_thread = .absent ∧ ¬ c.Pending Launches) := by
    rintro ha ⟨-, hnone⟩
    obtain ⟨t, ht, b, hb, rfl⟩ := hr.pending
    exact hnone ⟨t, ht, b, hb, ha⟩
  refine ⟨?_, fun hexited => ?_⟩
  · rcases hc.seen with hrun | hstopped | ⟨habsent, hnone⟩
    · rcases exec_running he hrun with hrun' | rfl
      · exact Or.inl hrun'
      · exact Or.inr (Or.inl ⟨c.shared, hrun, List.mem_append_right _ (List.mem_singleton_self _)⟩)
    · exact Or.inr (Or.inl hstopped.append)
    · have ha : ¬ Launches a := fun ha => hpending ha ⟨habsent, hnone⟩
      rcases exec_absent he ha habsent with hrun | ⟨habsent', hk⟩
      · exact Or.inl hrun
      · exact Or.inr (Or.inr ⟨habsent', hr.not_pending hk hnone⟩)
  · rcases exec_exited he hexited with hexited | ⟨rfl, hrun, hq⟩
    · obtain ⟨tr₁, tr₂, rfl, hstopped, hsuffix⟩ := hc.exited hexited
      exact ⟨tr₁, tr₂ ++ [(c.shared, a)], List.append_assoc .., hstopped, hk.suffix he hsuffix⟩
    · -- the thread returns with an empty queue
      have hstopped : Stopped tr := by
        rcases hc.seen with hrun' | hstopped | hnone
        · rw [hrun] at hrun'
          cases hrun'
        · exact hstopped
        · exact absurd hnone (hpending (Or.inr rfl))
      refine ⟨tr ++ [(c.shared, .exportLoop)], [], (List.append_nil _).symm, hstopped.append, ?_⟩
      rw [hq]
      exact List.nil_suffix

/-! ## Every run -/

theorem queueKept_initial : QueueKept capacity exporters [] { capacity, exporters } := by
  refine ⟨rfl, rfl, rfl, rfl, by simp, [], rfl, List.Pairwise.nil, by simp⟩

theorem callers_initial {callers : List (List ExportAction)}
    (hcallers : ∀ t ∈ callers, ∀ a ∈ t, IsCall a) : ∀ t ∈ callers, ∀ a ∈ t, OfCaller a :=
  fun t ht a ha => ofCaller_of_isCall (hcallers t ht a ha)

theorem exporting_of_trace {callers : List (List ExportAction)}
    (hcallers : ∀ t ∈ callers, ∀ a ∈ t, IsCall a)
    (h : Trace program (initial capacity exporters callers) tr c) :
    Exporting capacity exporters tr c ∧ StopSeen tr c := by
  apply h.invariant (I := fun tr c => Exporting capacity exporters tr c ∧ StopSeen tr c)
  · refine ⟨⟨queueKept_initial, [.exportThread], callers, [], rfl, callers_initial hcallers, ?_, rfl⟩,
      Or.inr (Or.inr ⟨rfl, ?_⟩), ?_⟩
    · exact .idle (by simp [initial]) fun i hi => rfl
    · rintro ⟨t, ht, a, ha, hlaunch⟩
      rcases List.mem_cons.1 ht with rfl | ht
      · rw [List.mem_singleton.1 ha] at hlaunch
        rcases hlaunch with hlaunch | hlaunch <;> cases hlaunch
      · have hcall := hcallers t ht a ha
        rcases hlaunch with rfl | rfl <;> exact hcall
    · rintro (hexited | hexited) <;> cases hexited
  · rintro tr c a d ⟨hc, hstop⟩ hstep
    exact ⟨hc.step hstep, hstop.step hc.kept hstep⟩

theorem QueueKept.dropped_exact (hs : QueueKept capacity exporters tr s)
    (hlt : (buffer capacity tr).dropped.length < 2 ^ 64) :
    s.dropped_count.toNat = (buffer capacity tr).dropped.length ∧
      (s.queue.map RuntimeMetrics.telemetry_dropped_samples).Pairwise (· ≤ ·) := by
  have htoNat : ∀ n ≤ (buffer capacity tr).dropped.length, (UInt64.ofNat n).toNat = n := by
    intro n hn
    rw [UInt64.toNat_ofNat']
    exact Nat.mod_eq_of_lt (by omega)
  obtain ⟨counts, heq, hsorted, hle⟩ := hs.counts
  constructor
  · rw [hs.dropped_count]
    exact htoNat _ le_rfl
  · rw [heq, List.pairwise_map]
    refine hsorted.imp_of_mem fun {i j} hi hj hij => ?_
    rw [UInt64.le_iff_toNat_le, htoNat i (hle i hi), htoNat j (hle j hj)]
    exact hij

/-- A sample is dropped when another one takes its place, or on arrival. -/
theorem QueueKept.drops (hs : QueueKept capacity exporters tr s) (a : ExportAction) :
    (buffer capacity (tr ++ [(s, a)])).dropped = (buffer capacity tr).dropped ∨
    ∃ sample, a = .enqueue sample ∧
      ((capacity = 0 ∧ (buffer capacity (tr ++ [(s, a)])).dropped =
        (buffer capacity tr).dropped ++ [sample.unstamped]) ∨
      ∃ oldest rest, s.queue = oldest :: rest ∧ s.queue.length = capacity.toNat ∧
        (buffer capacity (tr ++ [(s, a)])).dropped =
          (buffer capacity tr).dropped ++ [oldest.unstamped]) := by
  rw [buffer_append]
  cases a with
  | enqueue sample =>
    have hsteps := steps capacity.toNat (buffer capacity tr) (.offer sample.unstamped)
    show (DropOldest.step capacity.toNat (buffer capacity tr) (.offer sample.unstamped)).dropped = _ ∨ _
    simp only
    generalize DropOldest.step capacity.toNat (buffer capacity tr) (.offer sample.unstamped) = s'
      at hsteps ⊢
    cases hsteps with
    | push => exact Or.inl rfl
    | replace _ y q hge hq =>
      have hqueue := hs.queue
      have hlen := hs.length_eq
      have hle := hs.length_le
      cases hsq : s.queue with
      | nil =>
        rw [hsq, hq] at hlen
        cases hlen
      | cons oldest rest =>
        rw [hsq, List.map_cons, hq] at hqueue
        rw [← hsq]
        refine Or.inr ⟨sample, rfl, Or.inr ⟨oldest, rest, hsq, by omega, ?_⟩⟩
        rw [(List.cons.inj hqueue).1]
        simp [Buffer.dropped, Buffer.gone?]
    | refuse _ hzero =>
      refine Or.inr ⟨sample, rfl, Or.inl ⟨UInt64.toNat_inj.1 hzero, ?_⟩⟩
      simp [Buffer.dropped, Buffer.gone?]
  | exportLoop =>
    left
    have hsteps := steps capacity.toNat (buffer capacity tr) .poll
    simp only
    generalize DropOldest.step capacity.toNat (buffer capacity tr) .poll = s' at hsteps ⊢
    cases hsteps with
    | pop => simp [Buffer.dropped, Buffer.gone?]
    | idle => rfl
  | _ => exact Or.inl rfl

/-- The queue refines one that drops the oldest sample, and the export thread hands on what it takes. One
thread starts and stops the manager, the others enqueue. -/
theorem conservesSamples {owner : List ExportAction} {callers : List (List ExportAction)}
    (howner : ∀ a ∈ owner, IsCall a)
    (hcallers : ∀ t ∈ callers, ∀ a ∈ t, ∃ sample, a = .enqueue sample)
    (h : Trace program (initial capacity exporters (owner :: callers)) tr c) :
    ConservesSamples capacity exporters tr c := by
  have hcalls : ∀ t ∈ owner :: callers, ∀ a ∈ t, IsCall a := by
    intro t ht a ha
    rcases List.mem_cons.1 ht with rfl | ht
    · exact howner a ha
    · obtain ⟨sample, rfl⟩ := hcallers t ht a ha
      trivial
  obtain ⟨hc, hstop⟩ := exporting_of_trace hcalls h
  obtain ⟨tw, ts, l, hthreads, hofCaller, hworker, htaken⟩ := hc.threads
  have hheld : held c = l := held_eq hthreads hofCaller hworker
  have hqueue := hc.kept.queue
  have hmap : (c.shared.exported ++ held c ++ c.shared.queue).map RuntimeMetrics.unstamped =
      (buffer capacity tr).taken ++ (buffer capacity tr).queue := by
    rw [List.map_append, hheld, htaken, hqueue]
  refine ⟨hqueue, hc.kept.length_le, ?_, ?_, ?_, fun i hi => ?_, hc.kept.dropped_count,
    hc.kept.dropped_exact, fun a d _ => hc.kept.drops a, hc.kept.sizes, hstop.exited⟩
  · rw [hmap, ← offered_buffer capacity, List.append_assoc]
    refine List.Perm.trans ?_ (perm_offered (queueOps tr))
    rw [List.append_assoc]
    exact List.perm_append_comm.append_left _
  · rw [hheld]
    cases hworker <;> simp
  · rw [hmap, ← offered_buffer capacity]
    exact taken_append_queue_sublist (queueOps tr)
  · rw [hheld]
    rw [← hc.kept.exporters_eq] at hi
    cases hworker with
    | idle _ hcalls | loop _ hcalls => exact Or.inl (hcalls i hi)
    | exporting es hes x m hm halive hcalls =>
      have hcall := hcalls i hi
      split_ifs at hcall with him
      · exact Or.inr hcall
      · rw [List.append_nil] at hcall
        exact Or.inl hcall

/-- Two samples for a queue that holds one, then a `stop`. -/
theorem conservesSamples_two : ∃ tr c,
    Trace program (initial 1 1 [[.start, .stop],
      [.enqueue { uptime_ms := 1 }, .enqueue { uptime_ms := 2 }]]) tr c ∧
    c.shared.export_thread = .joined ∧ callsOf c.shared 0 = [⟨2, 0, 1, 1⟩] ∧
    ConservesSamples 1 1 tr c := by
  have hplay : ∃ c, play program anyStep
      [(2, {}), (2, {}), (1, {}), (1, {}), (0, {}), (0, {}), (0, {}), (0, {}), (1, {}), (0, {}),
        (1, {})]
      (initial 1 1 [[.start, .stop], [.enqueue { uptime_ms := 1 }, .enqueue { uptime_ms := 2 }]]) =
        some c ∧
      c.shared.export_thread = .joined ∧ callsOf c.shared 0 = [⟨2, 0, 1, 1⟩] := ⟨_, rfl, rfl, rfl⟩
  obtain ⟨c, hplay, hjoined, hcalls⟩ := hplay
  obtain ⟨tr, htr⟩ := (reaches_of_play hplay).trace
  exact ⟨tr, c, htr, hjoined, hcalls, conservesSamples (by simp [IsCall]) (by simp) htr⟩

/-- A thread enqueues `n` samples on its own. -/
theorem trace_enqueue (n : ℕ) (s : TelemetryExportManager) (rest : List ExportAction)
    (hs : s.capacity = 0) : ∃ tr, Trace program
      ⟨s, [[.exportThread], List.replicate n (.enqueue {}) ++ rest]⟩ tr
      ⟨{ s with dropped_count := s.dropped_count + UInt64.ofNat n }, [[.exportThread], rest]⟩ ∧
    (enqueued tr).length = n := by
  induction n generalizing rest with
  | zero =>
    refine ⟨[], ?_, rfl⟩
    show Trace program _ [] ⟨{ s with dropped_count := s.dropped_count + 0 }, _⟩
    rw [UInt64.add_zero]
    exact Trace.refl _
  | succ n ih =>
    obtain ⟨tr, htr, hlen⟩ := ih (.enqueue {} :: rest)
    rw [List.append_cons, ← List.replicate_succ'] at htr
    refine ⟨_, htr.tail (Step.run (w := {}) (k := []) [[ExportAction.exportThread]] [] ?_), ?_⟩
    · show some (TelemetryExportManager.enqueue _ _, _) = _
      rw [enqueue_of_zero (by exact hs), UInt64.ofNat_add, ← UInt64.add_assoc]
      rfl
    · rw [enqueued_append, List.length_append, hlen]
      rfl

/-- After `2 ^ 64` samples `dropped_count` is 0 again. -/
theorem dropped_count_wraps : ∃ tr c,
    Trace program (initial 0 0 [List.replicate (2 ^ 64) (.enqueue {})]) tr c ∧
    (enqueued tr).length = 2 ^ 64 ∧ c.shared.exported = [] ∧ held c = [] ∧ c.shared.queue = [] ∧
    c.shared.dropped_count = 0 := by
  obtain ⟨tr, htr, hlen⟩ := trace_enqueue (2 ^ 64) { capacity := 0, exporters := 0 } [] rfl
  rw [List.append_nil] at htr
  exact ⟨tr, _, htr, hlen, rfl, rfl, rfl, rfl⟩

end TelemetryExportManager

end EdgeNetSwitch
