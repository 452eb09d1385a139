import EdgeNetSwitch.Text.Lines

/-!
# Lines that are torn

Records are written as lines at the end of a text, and of some lines only the first part gets there, from which
the next record goes on. A reader of the lines that were ended finds no record that was not written, and misses
those whose line was not ended, and the one that follows the first part of another (`ReadsBack`). It can tell a line
with something before it by a mark that every record begins with, and that a record has a fixed number of times.
-/

namespace Lines

variable {α β : Type*}

/-- The lines that were ended. -/
def complete [DecidableEq α] (nl : α) (text : List α) : List (List α) := (text.splitOn nl).dropLast

/-- What is written of each record: so much of its line. -/
def writes (nl : α) (render : β → List α) (records : List (β × ℕ)) : List α :=
  records.flatMap fun r => (render r.1 ++ [nl]).take r.2

/-- The lines of the records. -/
def text (nl : α) (render : β → List α) (records : List β) : List α := records.flatMap fun b => render b ++ [nl]

/-- The records of a text, with what the first `k` bytes of the text hold of each. -/
def clip (render : β → List α) : List β → ℕ → List (β × ℕ)
  | [], _ => []
  | b :: records, k => (b, k) :: clip render records (k - ((render b).length + 1))

/-- The records whose line was not ended, and the lines that were begun and not ended. -/
def lost (render : β → List α) (records : List (β × ℕ)) : ℕ :=
  (records.countP fun r => r.2 ≤ (render r.1).length) +
    records.countP fun r => 0 < r.2 && r.2 ≤ (render r.1).length

/-- What is needed to tell whole lines from others. -/
structure Marked [DecidableEq α] (nl mark : α) (n : ℕ) (render : β → List α) (read : List α → Option β) : Prop where
  line : ∀ b, nl ∉ render b
  read_render : ∀ b, read (render b) = some b
  head : ∀ b, (render b).head? = some mark
  count : ∀ line b, read line = some b → line.count mark = n

/-- What is read is among the records, in their order, and no more of them are missing than were lost. -/
structure ReadsBack (read written : List β) (lost : ℕ) : Prop where
  sublist : read.Sublist written
  length_le : written.length ≤ read.length + lost

theorem ReadsBack.mono {read written : List β} {lost lost' : ℕ} (h : ReadsBack read written lost)
    (hle : lost ≤ lost') : ReadsBack read written lost' :=
  ⟨h.sublist, Nat.le_trans h.length_le (Nat.add_le_add_left hle _)⟩

variable {nl mark : α} {n : ℕ} {render : β → List α} {read : List α → Option β} {line : List α}

/-! ## What is lost -/

theorem length_line (b : β) : (render b ++ [nl]).length = (render b).length + 1 := by
  rw [List.length_append, List.length_singleton]

theorem text_cons (b : β) (records : List β) :
    text nl render (b :: records) = (render b ++ [nl]) ++ text nl render records := List.flatMap_cons

theorem text_append (records records' : List β) :
    text nl render (records ++ records') = text nl render records ++ text nl render records' := List.flatMap_append

theorem writes_append (records records' : List (β × ℕ)) :
    writes nl render (records ++ records') = writes nl render records ++ writes nl render records' :=
  List.flatMap_append

theorem lost_cons (r : β × ℕ) (records : List (β × ℕ)) : lost render (r :: records) =
    lost render records + if r.2 ≤ (render r.1).length then (if r.2 = 0 then 1 else 2) else 0 := by
  unfold lost
  simp only [List.countP_cons, Bool.and_eq_true, decide_eq_true_eq]
  split_ifs
  all_goals omega

theorem lost_append (records records' : List (β × ℕ)) :
    lost render (records ++ records') = lost render records + lost render records' := by
  unfold lost
  rw [List.countP_append, List.countP_append]
  omega

theorem map_clip (records : List β) (k : ℕ) : (clip render records k).map Prod.fst = records := by
  induction records generalizing k with
  | nil => rfl
  | cons b records ih => rw [clip, List.map_cons, ih]

theorem lost_clip_zero (records : List β) : lost render (clip render records 0) = records.length := by
  induction records with
  | nil => rfl
  | cons b records ih =>
    rw [clip, lost_cons, Nat.zero_sub, ih, if_pos (Nat.zero_le _), if_pos rfl]
    rfl

/-- What is there of the text is what is there of its lines. -/
theorem writes_clip (records : List β) (k : ℕ) :
    writes nl render (clip render records k) = (text nl render records).take k := by
  induction records generalizing k with
  | nil => exact List.take_nil.symm
  | cons b records ih =>
    have hwrites : writes nl render (clip render (b :: records) k) = (render b ++ [nl]).take k ++
        writes nl render (clip render records (k - ((render b).length + 1))) := List.flatMap_cons
    rw [text_cons, List.take_append, length_line, hwrites, ih]

variable [DecidableEq α]

theorem count_text (hline : ∀ b, nl ∉ render b) (records : List β) :
    (text nl render records).count nl = records.length := by
  induction records with
  | nil => rfl
  | cons b records ih =>
    rw [text_cons, List.count_append, List.count_append, List.count_eq_zero.2 (hline b),
      List.count_singleton_self, ih, List.length_cons]
    omega

/-- What is lost are the records whose line end is missing, and one more. -/
theorem lost_clip_le (hline : ∀ b, nl ∉ render b) (records : List β) (k : ℕ) :
    lost render (clip render records k) ≤
      if (text nl render records).drop k = [] then 0 else ((text nl render records).drop k).count nl + 1 := by
  induction records generalizing k with
  | nil => exact Nat.zero_le _
  | cons b records ih =>
    have hdrop : (text nl render (b :: records)).drop k = (render b ++ [nl]).drop k ++
        (text nl render records).drop (k - ((render b).length + 1)) := by
      rw [text_cons, List.drop_append, length_line]
    rw [clip, lost_cons, hdrop]
    by_cases hk : k ≤ (render b).length
    · -- the line is not ended, and none of the next ones is begun
      have hzero : k - ((render b).length + 1) = 0 := by omega
      have hrest : (render b ++ [nl]).drop k = (render b).drop k ++ [nl] := List.drop_append_of_le_length hk
      have hcount : (render b ++ [nl]).drop k ≠ [] ∧ 1 ≤ ((render b ++ [nl]).drop k).count nl := by
        rw [hrest, List.count_append, List.count_singleton_self]
        exact ⟨List.append_ne_nil_of_right_ne_nil _ (List.cons_ne_nil nl []), Nat.le_add_left 1 _⟩
      rw [hzero, lost_clip_zero, List.drop_zero, if_pos hk,
        if_neg (List.append_ne_nil_of_left_ne_nil hcount.1 _), List.count_append, count_text hline]
      split_ifs
      all_goals omega
    · have hnil : (render b ++ [nl]).drop k = [] := by
        apply List.drop_of_length_le
        rw [length_line]
        omega
      rw [hnil, List.nil_append, if_neg hk]
      exact ih _

/-! ## What is read -/

theorem complete_of_not_mem (h : nl ∉ line) : complete nl line = [] := by
  rw [complete, List.splitOn_eq_singleton h]
  rfl

theorem complete_append (h : nl ∉ line) (rest : List α) :
    complete nl (line ++ nl :: rest) = line :: complete nl rest := by
  rw [complete, List.splitOn_append_cons_self_of_not_mem h,
    List.dropLast_cons_of_ne_nil (List.splitOn_ne_nil nl rest)]
  rfl

/-- What is there of a record that was torn holds its mark. -/
theorem Marked.mark_mem_take (hm : Marked nl mark n render read) {b : β} {k : ℕ}
    (hne : (render b).take k ≠ []) : mark ∈ (render b).take k := by
  have hhead := hm.head b
  cases hb : render b with
  | nil =>
    rw [hb] at hhead
    cases hhead
  | cons c cs =>
    rw [hb] at hhead hne
    obtain rfl := Option.some.inj hhead
    cases k with
    | zero => exact absurd rfl hne
    | succ k => exact List.mem_cons_self

/-- A line that goes on with a part of a record is not ended, and holds the mark once it is begun. -/
theorem Marked.torn (hm : Marked nl mark n render read) (hnl : nl ∉ line) (hmark : line ≠ [] → mark ∈ line)
    (b : β) (k : ℕ) : nl ∉ line ++ (render b).take k ∧
      (line ++ (render b).take k ≠ [] → mark ∈ line ++ (render b).take k) := by
  constructor
  · rw [List.mem_append, not_or]
    exact ⟨hnl, fun hmem => hm.line b (List.mem_of_mem_take hmem)⟩
  · intro hne
    by_cases hline : line = []
    · rw [hline, List.nil_append] at hne ⊢
      exact hm.mark_mem_take hne
    · exact List.mem_append_left _ (hmark hline)

/-- A record with the mark before it is not read. -/
theorem Marked.read_append_render (hm : Marked nl mark n render read) (hmark : mark ∈ line) (b : β) :
    read (line ++ render b) = none := by
  rw [Option.eq_none_iff_forall_ne_some]
  intro b' hread
  have hcount := hm.count _ _ hread
  have hb := hm.count _ _ (hm.read_render b)
  have hpos := List.count_pos_iff.2 hmark
  rw [List.count_append] at hcount
  omega

/-- The records that are read, after the first part of a line. -/
theorem Marked.readsBack_after (hm : Marked nl mark n render read) (records : List (β × ℕ)) (hnl : nl ∉ line)
    (hmark : line ≠ [] → mark ∈ line) :
    ((complete nl (line ++ writes nl render records)).filterMap read).Sublist (records.map Prod.fst) ∧
      records.length ≤ ((complete nl (line ++ writes nl render records)).filterMap read).length +
        lost render records + (if line = [] then 0 else 1) := by
  induction records generalizing line with
  | nil =>
    rw [writes, List.flatMap_nil, List.append_nil, complete_of_not_mem hnl]
    exact ⟨List.nil_sublist _, Nat.zero_le _⟩
  | cons r records ih =>
    obtain ⟨b, k⟩ := r
    have hcons : writes nl render ((b, k) :: records) = (render b ++ [nl]).take k ++ writes nl render records :=
      List.flatMap_cons
    rw [hcons, lost_cons]
    by_cases hk : k ≤ (render b).length
    · -- the line is not ended, and goes on if it was begun
      have hbegun : line ++ (render b).take k ≠ [] → line ≠ [] ∨ k ≠ 0 := by
        intro hne
        by_contra hnone
        obtain ⟨hline, hzero⟩ := not_or.1 hnone
        rw [not_not.1 hline, not_not.1 hzero] at hne
        exact hne rfl
      obtain ⟨hnl', hmark'⟩ := hm.torn hnl hmark b k
      obtain ⟨hsublist, hlength⟩ := ih hnl' hmark'
      rw [List.take_append_of_le_length hk, ← List.append_assoc, List.length_cons, if_pos hk]
      refine ⟨hsublist.cons b, ?_⟩
      by_cases hempty : line ++ (render b).take k = []
      · rw [if_pos hempty] at hlength
        split_ifs
        all_goals omega
      · rw [if_neg hempty] at hlength
        rcases hbegun hempty with hline | hzero
        · rw [if_neg hline]
          split_ifs
          all_goals omega
        · rw [if_neg hzero]
          omega
    · -- the line is ended
      have hnl' : nl ∉ line ++ render b := by
        rw [List.mem_append, not_or]
        exact ⟨hnl, hm.line b⟩
      have htake : (render b ++ [nl]).take k = render b ++ [nl] := by
        apply List.take_of_length_le
        rw [length_line]
        omega
      obtain ⟨hsublist, hlength⟩ := @ih [] List.not_mem_nil fun hne => absurd rfl hne
      rw [List.nil_append, if_pos rfl, Nat.add_zero] at hlength
      rw [List.nil_append] at hsublist
      have htext : line ++ (render b ++ [nl] ++ writes nl render records) =
          (line ++ render b) ++ nl :: writes nl render records := by
        simp only [List.append_assoc, List.singleton_append]
      rw [htake, htext, complete_append hnl', List.length_cons, List.filterMap_cons, if_neg hk, Nat.add_zero]
      by_cases hline : line = []
      · rw [hline, List.nil_append, hm.read_render, if_pos rfl]
        refine ⟨hsublist.cons_cons b, ?_⟩
        dsimp only
        rw [List.length_cons]
        omega
      · rw [hm.read_append_render (hmark hline), if_neg hline]
        refine ⟨hsublist.cons b, ?_⟩
        dsimp only
        omega

theorem Marked.readsBack (hm : Marked nl mark n render read) (records : List (β × ℕ)) :
    ReadsBack ((complete nl (writes nl render records)).filterMap read) (records.map Prod.fst)
      (lost render records) := by
  have hempty : nl ∉ ([] : List α) := List.not_mem_nil
  obtain ⟨hsublist, hlength⟩ := hm.readsBack_after records hempty fun hne => absurd rfl hne
  rw [List.nil_append] at hsublist hlength
  refine ⟨hsublist, ?_⟩
  rw [List.length_map]
  exact hlength

end Lines
