import Mathlib.Data.List.TakeWhile

/-!
# Looking for a key in a delimited text

`after key text` is what follows the first occurrence of `key`, wherever it is, and `field sep key text`
is the part of it before the next separator. No key here holds the separator, so an occurrence lies within
one part of the text: `field` finds the first part that holds the key (`field_join`).
-/

namespace Search

variable {α : Type*} [DecidableEq α]

/-- What follows the first occurrence of `key`. -/
def after (key : List α) : List α → Option (List α)
  | [] => if key = [] then some [] else none
  | c :: text => if key <+: c :: text then some ((c :: text).drop key.length) else after key text

/-- What follows the first occurrence of `key`, up to the next separator. -/
def field (sep : α) (key text : List α) : Option (List α) :=
  (after key text).map fun rest => rest.takeWhile fun c => c ≠ sep

/-- The parts with a separator between them. -/
def join (sep : α) : List (List α) → List α
  | [] => []
  | [part] => part
  | part :: parts => part ++ sep :: join sep parts

variable {sep : α} {key text rest part : List α} {parts : List (List α)}

theorem after_self (key rest : List α) : after key (key ++ rest) = some rest := by
  cases h : key ++ rest with
  | nil =>
    obtain ⟨rfl, rfl⟩ := List.append_eq_nil_iff.1 h
    rfl
  | cons c text =>
    rw [after, ← h, if_pos (List.prefix_append key rest), List.drop_left]

theorem eq_of_after (h : after key text = some rest) : ∃ before, text = before ++ key ++ rest := by
  induction text with
  | nil =>
    rw [after] at h
    split_ifs at h with hkey
    cases h
    exact ⟨[], by simp [hkey]⟩
  | cons c text ih =>
    rw [after] at h
    split_ifs at h with hkey
    · obtain ⟨rest', hrest⟩ := hkey
      rw [← hrest, List.drop_left] at h
      exact ⟨[], by rw [List.nil_append, ← hrest, Option.some.inj h]⟩
    · obtain ⟨before, hbefore⟩ := ih h
      exact ⟨c :: before, by rw [hbefore, List.cons_append, List.cons_append]⟩

/-- More text does not change the first occurrence. -/
theorem after_append (h : after key text = some rest) (more : List α) :
    after key (text ++ more) = some (rest ++ more) := by
  induction text with
  | nil =>
    rw [after] at h
    split_ifs at h with hkey
    cases h
    subst hkey
    exact after_self [] more
  | cons c text ih =>
    rw [after] at h
    split_ifs at h with hkey
    · cases h
      obtain ⟨rest, hrest⟩ := hkey
      rw [← hrest, List.drop_left, List.append_assoc, after_self]
    · have hlater : ¬ key <+: c :: (text ++ more) := by
        intro hlater
        obtain ⟨before, hbefore⟩ := eq_of_after h
        have hlen : key.length ≤ (c :: text).length := by
          rw [hbefore]
          simp
          omega
        exact hkey (List.prefix_of_prefix_length_le hlater (List.prefix_append (c :: text) more) hlen)
      rw [List.cons_append, after, if_neg hlater]
      exact ih h

omit [DecidableEq α] in
theorem prefix_append_cons_iff (hsep : sep ∉ key) : key <+: part ++ sep :: rest ↔ key <+: part := by
  constructor
  · intro h
    rcases Nat.le_total key.length part.length with hlen | hlen
    · exact List.prefix_of_prefix_length_le h (List.prefix_append _ _) hlen
    · obtain ⟨tail, rfl⟩ := List.prefix_of_prefix_length_le (List.prefix_append part (sep :: rest)) h hlen
      cases tail with
      | nil => simp
      | cons c tail =>
        rw [List.prefix_append_right_inj, List.cons_prefix_cons] at h
        exact absurd h.1 fun hc => hsep (by simp [hc])
  · exact fun h => h.trans (List.prefix_append _ _)

/-- An occurrence lies on one side of the separator. -/
theorem after_append_cons (hkey : key ≠ []) (hsep : sep ∉ key) (part rest : List α) :
    after key (part ++ sep :: rest) =
      ((after key part).map (· ++ sep :: rest)).or (after key rest) := by
  induction part with
  | nil =>
    have hiff : key <+: [] ++ sep :: rest ↔ key <+: [] := prefix_append_cons_iff hsep
    have hno : ¬ key <+: sep :: rest := fun h => hkey (List.prefix_nil.1 (hiff.1 h))
    have hnil : after key [] = none := if_neg hkey
    have hcons : after key (sep :: rest) = after key rest := if_neg hno
    rw [List.nil_append, hnil, hcons]
    rfl
  | cons c part ih =>
    have hiff : key <+: (c :: part) ++ sep :: rest ↔ key <+: c :: part := prefix_append_cons_iff hsep
    rw [List.cons_append] at hiff ⊢
    rw [after, after]
    simp only [hiff]
    split_ifs with h
    · rw [Option.map_some, Option.some_or, ← List.cons_append, List.drop_append_of_le_length h.length_le]
    · exact ih

theorem takeWhile_sep (hsep : sep ∉ part) :
    (part ++ sep :: rest).takeWhile (fun c => c ≠ sep) = part := by
  have hall : ∀ c ∈ part, decide (c ≠ sep) = true := fun c hc => by
    simpa using fun h : c = sep => hsep (h ▸ hc)
  rw [List.takeWhile_append_of_pos hall, List.takeWhile_cons_of_neg (by simp), List.append_nil]

theorem takeWhile_all (hsep : sep ∉ part) : part.takeWhile (fun c => c ≠ sep) = part := by
  rw [List.takeWhile_eq_self_iff]
  exact fun c hc => by simpa using fun h : c = sep => hsep (h ▸ hc)

theorem not_mem_of_after (hsep : sep ∉ text) (h : after key text = some rest) : sep ∉ rest := by
  obtain ⟨before, rfl⟩ := eq_of_after h
  exact fun hmem => hsep (List.mem_append_right _ hmem)

theorem field_of_part (hsep : sep ∉ part) : field sep key part = after key part := by
  cases h : after key part with
  | none => rw [field, h, Option.map_none]
  | some rest => rw [field, h, Option.map_some, takeWhile_all (not_mem_of_after hsep h)]

/-- A key is in the first part, or in the rest. -/
theorem field_append_cons (hkey : key ≠ []) (hsep : sep ∉ key) (hpart : sep ∉ part) (rest : List α) :
    field sep key (part ++ sep :: rest) = (after key part).or (field sep key rest) := by
  rw [field, after_append_cons hkey hsep]
  cases h : after key part with
  | none => rfl
  | some rest' =>
    rw [Option.map_some, Option.some_or, Option.map_some, takeWhile_sep (not_mem_of_after hpart h)]
    rfl

/-- The field of a key is the rest of the first part that holds it. -/
theorem field_join (hkey : key ≠ []) (hsep : sep ∉ key) (h : ∀ part ∈ parts, sep ∉ part) :
    field sep key (join sep parts) = parts.findSome? (after key) := by
  induction parts with
  | nil =>
    rw [join, field, after, if_neg hkey]
    rfl
  | cons part parts ih =>
    obtain ⟨hpart, hparts⟩ := List.forall_mem_cons.1 h
    have hcons : (part :: parts).findSome? (after key) =
        (after key part).or (parts.findSome? (after key)) := by
      rw [List.findSome?_cons]
      cases after key part <;> rfl
    cases parts with
    | nil => rw [join, field_of_part hpart, hcons, List.findSome?_nil, Option.or_none]
    | cons part' parts =>
      rw [join, field_append_cons hkey hsep hpart, ih hparts, hcons]
      exact List.cons_ne_nil _ _

/-- More text lengthens a field that no separator ends, up to the next one. -/
theorem field_append (h : after key text = some rest) (more : List α) :
    field sep key (text ++ more) = some (if sep ∈ rest then rest.takeWhile fun c => c ≠ sep
      else rest ++ more.takeWhile fun c => c ≠ sep) := by
  rw [field, after_append h, Option.map_some]
  split_ifs with hsep
  · obtain ⟨a, b, rfl, ha⟩ := List.eq_append_cons_of_mem hsep
    rw [List.append_assoc, List.cons_append, takeWhile_sep ha, takeWhile_sep ha]
  · rw [List.takeWhile_append_of_pos]
    exact fun c hc => by simpa using fun h : c = sep => hsep (h ▸ hc)

end Search
