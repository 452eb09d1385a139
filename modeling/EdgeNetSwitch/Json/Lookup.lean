import EdgeNetSwitch.Json.Json

/-!
# Fields of an object

What is in an object that is built by one assignment after the other: under a key the last value assigned to
it, so that the values of the object add up to those assigned only if what is overwritten is zero.
-/

namespace Json

/-- `j[key]`, if it is there. -/
def field? (key : List UInt8) : Json → Option Json
  | .object fields => fields.lookup key
  | _ => none

/-- The value of an unsigned number, and zero of anything else. -/
def count : Json → ℕ
  | .unsigned n => n
  | _ => 0

/-- The sum of the values. -/
def total (fields : List (List UInt8 × Json)) : ℕ := (fields.map fun field => field.2.count).sum

/-- One assignment after the other. -/
def assign (acc fields : List (List UInt8 × Json)) : List (List UInt8 × Json) :=
  fields.foldl (fun acc field => set field.1 field.2 acc) acc

/-- The keys ascend. -/
def Sorted (fields : List (List UInt8 × Json)) : Prop := (fields.map Prod.fst).Pairwise (· < ·)

variable {key k : List UInt8} {value v : Json} {acc fields : List (List UInt8 × Json)}

theorem lookup_cons (k l : List UInt8) (v : Json) (fields : List (List UInt8 × Json)) :
    List.lookup k ((l, v) :: fields) = if k = l then some v else fields.lookup k := by
  by_cases h : k = l
  · subst h
    rw [if_pos rfl, List.lookup_cons_self]
  · have hbeq : (k == l) = false := beq_eq_false_iff_ne.2 h
    rw [if_neg h, List.lookup_cons, hbeq]

/-- What is in a document that is UTF-8 is UTF-8. -/
theorem utf8_of_field? {j : Json} (h : j.utf8 = true) (hv : j.field? key = some v) : v.utf8 = true := by
  cases j with
  | object fields =>
    replace h : utf8Fields fields = true := h
    replace hv : fields.lookup key = some v := hv
    induction fields with
    | nil => cases hv
    | cons field fields ih =>
      obtain ⟨l, w⟩ := field
      rw [utf8Fields, Bool.and_eq_true, Bool.and_eq_true] at h
      rw [lookup_cons] at hv
      split_ifs at hv
      · cases hv
        exact h.1.2
      · exact ih h.2 hv
  | null | boolean | unsigned | integer | float | string | array => cases hv

theorem lookup_set (key k : List UInt8) (value : Json) (fields : List (List UInt8 × Json)) :
    (set key value fields).lookup k = if k = key then some value else fields.lookup k := by
  induction fields with
  | nil => exact lookup_cons k key value []
  | cons field fields ih =>
    obtain ⟨l, v⟩ := field
    rw [set]
    by_cases heq : key = l
    · rw [if_pos heq, ← heq, lookup_cons, lookup_cons]
      by_cases hk : k = key
      · rw [if_pos hk, if_pos hk]
      · rw [if_neg hk, if_neg hk, if_neg hk]
    rw [if_neg heq]
    by_cases hlt : key < l
    · rw [if_pos hlt]
      exact lookup_cons k key value _
    · rw [if_neg hlt, lookup_cons, lookup_cons, ih]
      by_cases hk : k = l
      · have hne : k ≠ key := fun h => heq (h.symm.trans hk)
        rw [if_pos hk, if_neg hne, if_pos hk]
      · rw [if_neg hk, if_neg hk]

theorem lookup_assign (fields acc : List (List UInt8 × Json)) (k : List UInt8) :
    (assign acc fields).lookup k = (fields.reverse.lookup k).or (acc.lookup k) := by
  induction fields generalizing acc with
  | nil => rfl
  | cons field fields ih =>
    have hlast : List.lookup k [field] = if k = field.1 then some field.2 else none :=
      lookup_cons k field.1 field.2 []
    show (assign (set field.1 field.2 acc) fields).lookup k = _
    rw [ih, lookup_set, List.reverse_cons, List.lookup_append, Option.or_assoc, hlast]
    congr 1
    split_ifs with h
    · rfl
    · rfl

/-- Under a key there is the last value assigned to it. -/
theorem field?_ofFields (fields : List (List UInt8 × Json)) (k : List UInt8) :
    (ofFields fields).field? k = fields.reverse.lookup k := by
  show (assign [] fields).lookup k = _
  rw [lookup_assign, List.lookup_nil, Option.or_none]

theorem lookup_of_forall (hmem : (k, v) ∈ fields) (h : ∀ w, (k, w) ∈ fields → w = v) :
    fields.lookup k = some v := by
  induction fields with
  | nil => simp at hmem
  | cons field fields ih =>
    obtain ⟨l, w⟩ := field
    rw [lookup_cons]
    by_cases hk : k = l
    · rw [if_pos hk, h w (by rw [hk]; exact List.mem_cons_self)]
    · have hrest : (k, v) ∈ fields := by
        rcases List.mem_cons.1 hmem with heq | hrest
        · cases heq
          exact absurd rfl hk
        · exact hrest
      rw [if_neg hk, ih hrest fun w hw => h w (List.mem_cons_of_mem _ hw)]

/-- A field whose key is assigned once. -/
theorem field?_ofFields_of_mem (h : (fields.map Prod.fst).Nodup) (hmem : (k, v) ∈ fields) :
    (ofFields fields).field? k = some v := by
  rw [field?_ofFields]
  refine lookup_of_forall (List.mem_reverse.2 hmem) fun w hw => ?_
  have heq := List.inj_on_of_nodup_map h (List.mem_reverse.1 hw) hmem rfl
  cases heq
  rfl

theorem sorted_set (h : Sorted fields) : Sorted (set key value fields) := by
  induction fields with
  | nil => simp [set, Sorted]
  | cons field fields ih =>
    obtain ⟨l, v⟩ := field
    have hcons := h
    rw [Sorted, List.map_cons, List.pairwise_cons] at hcons
    obtain ⟨hl, hrest⟩ := hcons
    unfold set
    split_ifs with heq hlt
    · exact h
    · rw [Sorted, List.map_cons, List.pairwise_cons]
      refine ⟨fun a ha => ?_, h⟩
      rcases List.mem_cons.1 ha with rfl | ha
      · exact hlt
      · exact List.lt_trans hlt (hl a ha)
    · have hgt : l < key := by
        by_contra hno
        exact heq (Std.Trichotomous.trichotomous key l hlt hno)
      rw [Sorted, List.map_cons, List.pairwise_cons]
      refine ⟨fun a ha => ?_, ih hrest⟩
      rcases mem_keys_set.1 ha with rfl | ha
      · exact hgt
      · exact hl a ha

/-- An assignment adds its value and takes away the one it overwrites. -/
theorem total_set (h : Sorted fields) (key : List UInt8) (value : Json) :
    total (set key value fields) + ((fields.lookup key).map count).getD 0 = total fields + value.count := by
  induction fields with
  | nil => simp [set, total]
  | cons field fields ih =>
    obtain ⟨l, v⟩ := field
    rw [Sorted, List.map_cons, List.pairwise_cons] at h
    obtain ⟨hl, hrest⟩ := h
    unfold set
    split_ifs with heq hlt
    · rw [lookup_cons, if_pos heq]
      simp [total]
      omega
    · have hnone : fields.lookup key = none := by
        rw [List.lookup_eq_none_iff]
        intro field hfield
        have hgt := hl field.1 (List.mem_map_of_mem hfield)
        have hne : key ≠ field.1 := by
          rintro rfl
          exact List.lt_asymm hlt hgt
        simpa using hne
      rw [lookup_cons, if_neg heq, hnone]
      simp [total]
      omega
    · have hcons := ih hrest
      rw [lookup_cons, if_neg heq]
      simp only [total, List.map_cons, List.sum_cons] at hcons ⊢
      omega

theorem total_assign_le (hs : Sorted acc) : total (assign acc fields) ≤ total acc + total fields := by
  induction fields generalizing acc with
  | nil => simp [assign, total]
  | cons field fields ih =>
    have hset := total_set hs field.1 field.2
    have hsorted : Sorted (set field.1 field.2 acc) := sorted_set hs
    have hrest := ih hsorted
    have hcons : total (field :: fields) = field.2.count + total fields := by simp [total]
    show total (assign (set field.1 field.2 acc) fields) ≤ _
    omega

/-- A value that is overwritten is lost. -/
theorem total_assign_lost (hs : Sorted acc) (hv : acc.lookup k = some v) (hk : k ∈ fields.map Prod.fst) :
    total (assign acc fields) + v.count ≤ total acc + total fields := by
  induction fields generalizing acc with
  | nil => simp at hk
  | cons field fields ih =>
    have hset := total_set hs field.1 field.2
    have hsorted : Sorted (set field.1 field.2 acc) := sorted_set hs
    have hcons : total (field :: fields) = field.2.count + total fields := by simp [total]
    show total (assign (set field.1 field.2 acc) fields) + _ ≤ _
    by_cases heq : k = field.1
    · rw [← heq, hv, Option.map_some, Option.getD_some] at hset
      have hle : total (assign (set field.1 field.2 acc) fields) ≤ _ := total_assign_le hsorted
      rw [← heq] at hle ⊢
      omega
    · have hmem : k ∈ fields.map Prod.fst := (List.mem_cons.1 hk).resolve_left heq
      have hlookup : (set field.1 field.2 acc).lookup k = some v := by
        rw [lookup_set, if_neg heq, hv]
      have hrest := ih hsorted hlookup hmem
      omega

/-- Nothing but zeros is overwritten. -/
def OverwritesZeros (fields : List (List UInt8 × Json)) : Prop :=
  fields.Pairwise fun f g => f.1 = g.1 → f.2.count = 0

theorem total_assign_eq (hs : Sorted acc) (hzero : ∀ f ∈ fields, ∀ v, acc.lookup f.1 = some v → v.count = 0)
    (h : OverwritesZeros fields) : total (assign acc fields) = total acc + total fields := by
  induction fields generalizing acc with
  | nil => simp [assign, total]
  | cons field fields ih =>
    obtain ⟨hfirst, hrest⟩ := List.pairwise_cons.1 h
    have hset := total_set hs field.1 field.2
    have hlost : ((acc.lookup field.1).map count).getD 0 = 0 := by
      cases hlookup : acc.lookup field.1 with
      | none => rfl
      | some v => exact hzero field List.mem_cons_self v hlookup
    have hcons : total (field :: fields) = field.2.count + total fields := by simp [total]
    have hnext : total (assign (set field.1 field.2 acc) fields) =
        total (set field.1 field.2 acc) + total fields := by
      apply ih (sorted_set hs) _ hrest
      intro f hf v hv
      rw [lookup_set] at hv
      split_ifs at hv with heq
      · cases hv
        exact hfirst f hf heq.symm
      · exact hzero f (List.mem_cons_of_mem _ hf) v hv
    show total (assign (set field.1 field.2 acc) fields) = _
    omega

theorem overwritesZeros_of_total (hs : Sorted acc)
    (h : total (assign acc fields) = total acc + total fields) : OverwritesZeros fields := by
  induction fields generalizing acc with
  | nil => exact List.Pairwise.nil
  | cons field fields ih =>
    have hset := total_set hs field.1 field.2
    have hsorted : Sorted (set field.1 field.2 acc) := sorted_set hs
    have hle : total (assign (set field.1 field.2 acc) fields) ≤ _ := total_assign_le hsorted
    have hcons : total (field :: fields) = field.2.count + total fields := by simp [total]
    have hassign : total (assign (set field.1 field.2 acc) fields) = total acc + total (field :: fields) := h
    refine List.pairwise_cons.2 ⟨fun g hg heq => ?_, ih hsorted (by omega)⟩
    have hlookup : (set field.1 field.2 acc).lookup field.1 = some field.2 := by
      rw [lookup_set, if_pos rfl]
    have hlost := total_assign_lost hsorted hlookup (by rw [heq]; exact List.mem_map_of_mem hg)
    omega

/-- The values of an object add up to those assigned exactly if nothing but zeros is overwritten. -/
theorem total_ofFields_iff (fields : List (List UInt8 × Json)) :
    total (assign [] fields) = total fields ↔ OverwritesZeros fields := by
  have hnil : Sorted [] := List.Pairwise.nil
  have hzero : total [] = 0 := rfl
  constructor
  · intro h
    exact overwritesZeros_of_total hnil (by omega)
  · intro h
    have heq := total_assign_eq hnil (fun f _ v hv => by simp at hv) h
    omega

end Json
