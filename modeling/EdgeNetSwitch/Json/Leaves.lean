import EdgeNetSwitch.Json.Lookup

/-!
# Leaves of a document

The values of a document that hold no fields, each under the keys that lead to it with dots between them. The
order of the fields does not matter (`leaves_ofFields`).
-/

namespace Json

/-- A key, after those that lead to it. -/
def dotted (path key : List UInt8) : List UInt8 := if path = [] then key else path ++ 0x2E :: key

mutual

def leaves (path : List UInt8) : Json → List (List UInt8 × Json)
  | .object fields => leavesOfFields path fields
  | v => [(path, v)]

def leavesOfFields (path : List UInt8) : List (List UInt8 × Json) → List (List UInt8 × Json)
  | [] => []
  | (key, v) :: fields => leaves (dotted path key) v ++ leavesOfFields path fields

end

variable {key : List UInt8} {value : Json} {acc fields : List (List UInt8 × Json)}

@[simp] theorem dotted_nil (key : List UInt8) : dotted [] key = key := if_pos rfl

theorem leavesOfFields_eq_flatMap (path : List UInt8) (fields : List (List UInt8 × Json)) :
    leavesOfFields path fields = fields.flatMap fun field => leaves (dotted path field.1) field.2 := by
  induction fields with
  | nil => rfl
  | cons field fields ih => rw [leavesOfFields, ih, List.flatMap_cons]

theorem set_perm (h : key ∉ fields.map Prod.fst) : (set key value fields).Perm ((key, value) :: fields) := by
  induction fields with
  | nil => exact .refl _
  | cons field fields ih =>
    obtain ⟨k, v⟩ := field
    simp only [List.map_cons, List.mem_cons, not_or] at h
    unfold set
    split_ifs with heq hlt
    · exact absurd heq h.1
    · exact .refl _
    · exact ((ih h.2).cons (k, v)).trans (.swap _ _ _)

theorem assign_perm (h : ((acc ++ fields).map Prod.fst).Nodup) : (assign acc fields).Perm (acc ++ fields) := by
  induction fields generalizing acc with
  | nil => rw [List.append_nil]; exact .refl _
  | cons field fields ih =>
    have hmiddle : (acc ++ field :: fields).Perm (field :: acc ++ fields) := List.perm_middle
    have hnodup := (hmiddle.map Prod.fst).nodup_iff.1 h
    have hnew : field.1 ∉ acc.map Prod.fst := by
      rw [List.cons_append, List.map_cons, List.nodup_cons, List.map_append, List.mem_append, not_or] at hnodup
      exact hnodup.1.1
    have hset : (set field.1 field.2 acc ++ fields).Perm (field :: acc ++ fields) :=
      (set_perm hnew).append_right fields
    exact (ih ((hset.map Prod.fst).nodup_iff.2 hnodup)).trans (hset.trans hmiddle.symm)

/-- The leaves of an object are those of the fields it is made of. -/
theorem leaves_ofFields (h : (fields.map Prod.fst).Nodup) (path : List UInt8) :
    (leaves path (ofFields fields)).Perm
      (fields.flatMap fun field => leaves (dotted path field.1) field.2) := by
  have hperm : (assign [] fields).Perm fields := assign_perm h
  show (leavesOfFields path (assign [] fields)).Perm _
  rw [leavesOfFields_eq_flatMap]
  exact hperm.flatMap_right _

end Json
