import Mathlib.Data.List.Basic

/-!
# Texts of lines

A text is split at every line end, and an empty piece after the last one is no line. A line may be an entry: a
key, a separator and a value.
-/

namespace Lines

variable {α : Type*} [DecidableEq α]

/-- The lines of a text. -/
def lines (nl : α) (text : List α) : List (List α) :=
  let pieces := text.splitOn nl
  if pieces.getLast? = some [] then pieces.dropLast else pieces

/-- The text with these lines. -/
def unlines (nl : α) (ls : List (List α)) : List α := ls.flatMap fun line => line ++ [nl]

/-- What is before and after the first separator. -/
def keyValue? (eq : α) : List α → Option (List α × List α)
  | [] => none
  | c :: line => if c = eq then some ([], line) else (keyValue? eq line).map fun e => (c :: e.1, e.2)

/-- The entries of a text, in their order. -/
def entries (nl eq : α) (text : List α) : List (List α × List α) := (lines nl text).filterMap (keyValue? eq)

variable {nl eq : α} {line key : List α} {ls : List (List α)}

theorem lines_append (h : nl ∉ line) (rest : List α) :
    lines nl (line ++ nl :: rest) = line :: lines nl rest := by
  have hpieces : (line ++ nl :: rest).splitOn nl = line :: rest.splitOn nl :=
    List.splitOn_append_cons_self_of_not_mem h _
  simp only [lines, hpieces]
  cases hrest : rest.splitOn nl with
  | nil => exact absurd hrest (List.splitOn_ne_nil nl rest)
  | cons piece pieces =>
    rw [List.getLast?_cons_cons]
    split_ifs
    · rw [List.dropLast_cons_of_ne_nil (List.cons_ne_nil _ _)]
    · rfl

/-- The lines of a text are read back. -/
theorem lines_unlines (h : ∀ line ∈ ls, nl ∉ line) : lines nl (unlines nl ls) = ls := by
  induction ls with
  | nil => simp [lines, unlines]
  | cons line ls ih =>
    obtain ⟨hline, hls⟩ := List.forall_mem_cons.1 h
    have hcons : unlines nl (line :: ls) = line ++ nl :: unlines nl ls := by
      simp [unlines]
    rw [hcons, lines_append hline, ih hls]

/-- Lines with line ends between them, the last of which is not empty, are read back too. -/
theorem lines_intercalate (h : ∀ line ∈ ls, nl ∉ line) (hlast : ls.getLast? ≠ some []) :
    lines nl (List.intercalate [nl] ls) = ls := by
  induction ls with
  | nil => simp [lines]
  | cons line ls ih =>
    obtain ⟨hline, hls⟩ := List.forall_mem_cons.1 h
    cases ls with
    | nil =>
      have hne : line ≠ [] := fun hnil => hlast (by rw [hnil]; rfl)
      have hpieces : line.splitOn nl = [line] := List.splitOn_eq_singleton hline
      rw [List.intercalate_singleton, lines, hpieces]
      exact if_neg fun hnil => hne (Option.some.inj hnil)
    | cons line' ls =>
      rw [List.getLast?_cons_cons] at hlast
      rw [List.intercalate_cons_cons, List.append_assoc, List.singleton_append, lines_append hline,
        ih hls hlast]

theorem keyValue?_append (h : eq ∉ key) (value : List α) :
    keyValue? eq (key ++ eq :: value) = some (key, value) := by
  induction key with
  | nil => simp [keyValue?]
  | cons c key ih =>
    rw [List.mem_cons, not_or] at h
    have hc : c ≠ eq := fun heq => h.1 heq.symm
    rw [List.cons_append, keyValue?, if_neg hc, ih h.2]
    rfl

theorem eq_of_keyValue? {e : List α × List α} (h : keyValue? eq line = some e) : line = e.1 ++ eq :: e.2 := by
  induction line generalizing e with
  | nil => cases h
  | cons c line ih =>
    rw [keyValue?] at h
    split_ifs at h with hc
    · obtain rfl := Option.some.inj h
      rw [hc, List.nil_append]
    · obtain ⟨e', he', rfl⟩ := Option.map_eq_some_iff.1 h
      rw [ih he', List.cons_append]

end Lines
