import EdgeNetSwitch.Packet.LifecycleAccounting
import Mathlib.Data.Finset.Card
import Mathlib.Algebra.BigOperators.Group.Finset.Piecewise

/-!
# Proofs: reference counts

How the reference counts grow with the history, in terms of the additions the handlers make
(`expected_terminal`), and what they add up to (`length_processed_add_reasons`).
-/

namespace EdgeNetSwitch

namespace Terminal

variable {l : List Terminal} {t : Terminal}

theorem mem_lifecycles {id : UInt64} : id ∈ lifecycles l ↔ ∃ t ∈ l, t.lifecycle_id = id := by
  simp [lifecycles]

theorem lifecycles_append : lifecycles (l ++ [t]) = insert t.lifecycle_id (lifecycles l) := by
  ext id
  simp only [mem_lifecycles, Finset.mem_insert, List.mem_append, List.mem_singleton]
  constructor
  · rintro ⟨u, hu | rfl, rfl⟩
    · exact Or.inr ⟨u, hu, rfl⟩
    · exact Or.inl rfl
  · rintro (rfl | ⟨u, hu, rfl⟩)
    · exact ⟨t, Or.inr rfl, rfl⟩
    · exact ⟨u, Or.inl hu, rfl⟩

/-- The first outcomes cover the lifecycles, each once. -/
theorem firsts_spec (l : List Terminal) : ((firsts l).map lifecycle_id).Nodup ∧
    ∀ id, id ∈ (firsts l).map lifecycle_id ↔ id ∈ lifecycles l := by
  induction l using List.reverseRecOn with
  | nil => simp [firsts, lifecycles]
  | append_singleton l t ih =>
    have happ : firsts (l ++ [t]) = addFirst (firsts l) t := by simp [firsts]
    rw [happ, lifecycles_append]
    unfold addFirst
    split_ifs with h
    · refine ⟨ih.1, fun id => ?_⟩
      rw [Finset.mem_insert, ih.2]
      have ht := (ih.2 _).1 h
      constructor
      · exact Or.inr
      · rintro (rfl | h')
        · exact ht
        · exact h'
    · rw [List.map_append, List.map_singleton]
      refine ⟨List.nodup_append.2 ⟨ih.1, by simp, ?_⟩, fun id => ?_⟩
      · rintro a ha b hb rfl
        rw [List.mem_singleton.1 hb] at ha
        exact h ha
      · rw [List.mem_append, List.mem_singleton, Finset.mem_insert, ih.2, or_comm]

theorem firsts_append_of_mem (h : t.lifecycle_id ∈ lifecycles l) :
    firsts (l ++ [t]) = firsts l := by
  have happ : firsts (l ++ [t]) = addFirst (firsts l) t := by simp [firsts]
  rw [happ, addFirst, if_pos (((firsts_spec l).2 _).2 h)]

theorem firsts_append_of_not_mem (h : t.lifecycle_id ∉ lifecycles l) :
    firsts (l ++ [t]) = firsts l ++ [t] := by
  have happ : firsts (l ++ [t]) = addFirst (firsts l) t := by simp [firsts]
  rw [happ, addFirst, if_neg fun hm => h (((firsts_spec l).2 _).1 hm)]

/-- When no lifecycle has a second outcome, all of them are first. -/
theorem firsts_of_nodup (hn : (l.map lifecycle_id).Nodup) : firsts l = l := by
  induction l using List.reverseRecOn with
  | nil => rfl
  | append_singleton l t ih =>
    rw [List.map_append, List.nodup_append] at hn
    rw [firsts_append_of_not_mem, ih hn.1]
    rw [mem_lifecycles]
    rintro ⟨u, hu, hid⟩
    exact hn.2.2 _ (List.mem_map_of_mem hu) _ (by simp) hid

theorem length_firsts (l : List Terminal) : (firsts l).length = (lifecycles l).card := by
  have hset : ((firsts l).map lifecycle_id).toFinset = lifecycles l := by
    ext id
    rw [List.mem_toFinset, (firsts_spec l).2]
  rw [← hset, List.toFinset_card_of_nodup (firsts_spec l).1, List.length_map]

theorem card_lifecycles_le (l : List Terminal) : (lifecycles l).card ≤ l.length := by
  have h := List.toFinset_card_le (l.map lifecycle_id)
  rwa [List.length_map] at h

end Terminal

namespace StatsMessage

open PacketStats Terminal

variable {h : List StatsMessage} {t : Terminal}

theorem terminals_append_terminal : terminals (h ++ [.terminal t]) = terminals h ++ [t] := by
  simp [terminals, terminal?]

theorem terminals_append_of_none {m : StatsMessage} (hm : m.terminal? = none) :
    terminals (h ++ [m]) = terminals h := by
  simp [terminals, List.filterMap_cons_none hm]

/-- What a list of additions adds to a counter. -/
def gain (k : Counter) (l : List (Counter × UInt64)) : ℕ :=
  (l.map fun x => if x.1 = k then x.2.toNat else 0).sum

/-- A repeated outcome changes no count but that of the duplicates. -/
theorem expected_repeated (hm : t.lifecycle_id ∈ lifecycles (terminals h)) (k : Counter) :
    expected (h ++ [.terminal t]) k =
      expected h k + if k = .duplicateEvents then 1 else 0 := by
  have hle := card_lifecycles_le (terminals h)
  have hf : firsts (terminals (h ++ [.terminal t])) = firsts (terminals h) := by
    rw [terminals_append_terminal, firsts_append_of_mem hm]
  have hl : lifecycles (terminals (h ++ [.terminal t])) = lifecycles (terminals h) := by
    rw [terminals_append_terminal, lifecycles_append, Finset.insert_eq_of_mem hm]
  have ht : (terminals (h ++ [.terminal t])).length = (terminals h).length + 1 := by
    rw [terminals_append_terminal, List.length_append, List.length_singleton]
  cases k with
  | duplicateEvents => simp only [expected, hl, ht, if_true]; omega
  | ingressPackets => simp [expected, packetRx?]
  | _ => simp [expected, processed, reasons, hf, hl]

/-- The first outcome of a lifecycle is counted for what it is. -/
theorem expected_first (hm : t.lifecycle_id ∉ lifecycles (terminals h)) (k : Counter) :
    expected (h ++ [.terminal t]) k = expected h k + gain k (increments false t) := by
  have hf : firsts (terminals (h ++ [.terminal t])) = firsts (terminals h) ++ [t] := by
    rw [terminals_append_terminal, firsts_append_of_not_mem hm]
  have hp : processed (h ++ [.terminal t]) = processed h ++ (processed? t).toList := by
    rw [processed, hf, List.filterMap_append]
    cases t <;> rfl
  have hr : reasons (h ++ [.terminal t]) = reasons h ++ (reason? t).toList := by
    rw [reasons, hf, List.filterMap_append]
    cases t <;> rfl
  have hl : (lifecycles (terminals (h ++ [.terminal t]))).card =
      (lifecycles (terminals h)).card + 1 := by
    rw [terminals_append_terminal, lifecycles_append, Finset.card_insert_of_notMem hm]
  have ht : (terminals (h ++ [.terminal t])).length = (terminals h).length + 1 := by
    rw [terminals_append_terminal, List.length_append, List.length_singleton]
  have hi : (h ++ [StatsMessage.terminal t]).filterMap packetRx? = h.filterMap packetRx? := by
    simp [packetRx?]
  cases t <;> cases k <;>
    simp [expected, hp, hr, hl, ht, hi, gain, increments, processed?, reason?,
      List.count_singleton]

/-- The reference counts grow by what the handler of a terminal message adds. -/
theorem expected_terminal (k : Counter) : expected (h ++ [.terminal t]) k =
    expected h k + gain k (increments (decide (t.lifecycle_id ∈ lifecycles (terminals h))) t) := by
  by_cases hm : t.lifecycle_id ∈ lifecycles (terminals h)
  · rw [expected_repeated hm, decide_eq_true hm]
    cases t <;> simp [gain, increments, eq_comm]
  · rw [expected_first hm, decide_eq_false hm]

theorem expected_packetRx (p : Packet) (k : Counter) :
    expected (h ++ [.packetRx p]) k = expected h k + gain k [(.ingressPackets, 1)] := by
  have ht : terminals (h ++ [.packetRx p]) = terminals h := terminals_append_of_none rfl
  cases k <;> simp [expected, processed, reasons, ht, gain, packetRx?]

theorem expected_ingressIdlePoll (k : Counter) :
    expected (h ++ [.ingressIdlePoll]) k =
      expected h k + gain k [(.udpDrainCompletions, 1)] := by
  have ht : terminals (h ++ [.ingressIdlePoll]) = terminals h := terminals_append_of_none rfl
  cases k <;> simp [expected, processed, reasons, ht, gain, packetRx?]

/-- Every lifecycle with an outcome was processed or dropped for one reason. -/
theorem length_processed_add_reasons (h : List StatsMessage) :
    (processed h).length + ∑ r, (reasons h).count r = (lifecycles (terminals h)).card := by
  rw [← length_firsts, processed, reasons]
  induction firsts (terminals h) with
  | nil => simp
  | cons t l ih =>
    cases t with
    | processed p =>
      have hp : (Terminal.processed p :: l).filterMap processed? = p :: l.filterMap processed? := rfl
      have hr : (Terminal.processed p :: l).filterMap reason? = l.filterMap reason? := rfl
      rw [hp, hr, List.length_cons, List.length_cons]
      omega
    | dropped d =>
      have hp : (Terminal.dropped d :: l).filterMap processed? = l.filterMap processed? := rfl
      have hr : (Terminal.dropped d :: l).filterMap reason? = d.reason :: l.filterMap reason? := rfl
      have hone : ∑ r, (if d.reason = r then 1 else 0) = 1 := by simp
      rw [hp, hr, List.length_cons]
      simp only [List.count_cons, Finset.sum_add_distrib, beq_iff_eq]
      omega

end StatsMessage

end EdgeNetSwitch
