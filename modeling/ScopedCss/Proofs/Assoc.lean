/-
What looking a key up in an association list finds after an insertion or a removal. `insert` is
only needed where the key is new; then it puts the entry at the end.
-/
import ScopedCss.Assoc

namespace ScopedCss.Assoc

variable {κ α : Type} [BEq κ] [LawfulBEq κ]

theorem get?_eq_none_iff {m : Assoc κ α} {k : κ} : m.get? k = none ↔ ∀ e ∈ m, e.1 ≠ k := by
  simp only [get?, Option.map_eq_none_iff, List.find?_eq_none, beq_iff_eq, ne_eq]

/-- With distinct keys, looking a key up finds its only entry. -/
theorem get?_eq_some_of_mem {m : Assoc κ α} {k : κ} {v : α} (hd : (m.map (·.1)).Nodup)
    (h : (k, v) ∈ m) : m.get? k = some v := by
  induction m with
  | nil => simp at h
  | cons e m ih =>
    simp only [List.map_cons, List.nodup_cons, List.mem_map, not_exists, not_and] at hd
    rcases List.mem_cons.1 h with rfl | h
    · simp [get?]
    · have hne : (e.1 == k) = false := by
        simp only [beq_eq_false_iff_ne]
        intro he
        exact hd.1 (k, v) h he.symm
      simp only [get?, List.find?_cons, hne]
      exact ih hd.2 h

/-- With distinct keys, a pair is an entry exactly if it is found. -/
theorem mem_iff_get? {m : Assoc κ α} (hd : (m.map (·.1)).Nodup) {k : κ} {v : α} :
    (k, v) ∈ m ↔ m.get? k = some v := by
  refine ⟨get?_eq_some_of_mem hd, fun h => ?_⟩
  obtain ⟨e, he, rfl⟩ := Option.map_eq_some_iff.1 h
  have hk : e.1 = k := by simpa using List.find?_some he
  exact hk ▸ List.mem_of_find?_eq_some he

theorem insert_of_get?_eq_none {m : Assoc κ α} {k : κ} (v : α) (h : m.get? k = none) :
    m.insert k v = m ++ [(k, v)] := by
  have hany : (m.any fun e => e.1 == k) = false := by
    rw [List.any_eq_false]
    intro e he hk
    exact get?_eq_none_iff.1 h e he (by simpa using hk)
  simp [insert, hany]

theorem get?_insert_self {m : Assoc κ α} {k : κ} (v : α) (h : m.get? k = none) :
    (m.insert k v).get? k = some v := by
  have hfind : m.find? (fun e => e.1 == k) = none := by simpa [get?] using h
  rw [insert_of_get?_eq_none v h]
  simp [get?, List.find?_append, hfind]

theorem get?_insert_other {m : Assoc κ α} {k k' : κ} (v : α) (h : m.get? k = none) (hne : k' ≠ k) :
    (m.insert k v).get? k' = m.get? k' := by
  have hlast : [(k, v)].find? (fun e => e.1 == k') = none := by simp [Ne.symm hne]
  rw [insert_of_get?_eq_none v h]
  simp only [get?, List.find?_append, hlast, Option.or_none]

theorem nodup_insert {m : Assoc κ α} {k : κ} (v : α) (h : m.get? k = none)
    (hd : (m.map (·.1)).Nodup) : ((m.insert k v).map (·.1)).Nodup := by
  rw [insert_of_get?_eq_none v h, List.map_append, List.nodup_append]
  refine ⟨hd, by simp, ?_⟩
  intro a ha b hb
  simp only [List.mem_map] at ha
  obtain ⟨e, he, rfl⟩ := ha
  simp only [List.map_cons, List.map_nil, List.mem_singleton] at hb
  rw [hb]
  exact get?_eq_none_iff.1 h e he

theorem get?_erase_self (m : Assoc κ α) (k : κ) : (m.erase k).get? k = none := by
  rw [get?_eq_none_iff]
  intro e he
  simpa [erase] using (List.mem_filter.1 he).2

theorem get?_erase_other (m : Assoc κ α) {k k' : κ} (hne : k' ≠ k) :
    (m.erase k).get? k' = m.get? k' := by
  induction m with
  | nil => rfl
  | cons e m ih =>
    simp only [erase, get?] at ih ⊢
    by_cases hk : e.1 = k
    · have hk' : (e.1 == k') = false := by
        simp only [beq_eq_false_iff_ne]
        intro he
        exact hne (he.symm.trans hk)
      rw [List.filter_cons_of_neg (by simp [hk]), List.find?_cons, hk']
      exact ih
    · rw [List.filter_cons_of_pos (by simp [hk]), List.find?_cons, List.find?_cons]
      split
      · rfl
      · exact ih

omit [LawfulBEq κ] in
theorem nodup_erase {m : Assoc κ α} (k : κ) (hd : (m.map (·.1)).Nodup) :
    ((m.erase k).map (·.1)).Nodup :=
  hd.sublist (List.filter_sublist.map _)

end ScopedCss.Assoc
