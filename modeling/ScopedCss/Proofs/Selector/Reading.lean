/-
Reading selectors: a selector list that is read has a selector, and each selector a fragment
(`Groups.fragments_ne_nil`).
-/
import ScopedCss.Proofs.Except
import ScopedCss.Selector.Parser

namespace ScopedCss

namespace Selector

/-- Tokens read as at least one fragment. -/
theorem fragmentsAfter_ne_nil {previous : Option Fragment} {t : Token} {ts : List Token}
    {fs : List Fragment} (h : fragmentsAfter previous (t :: ts) = .ok fs) : fs ≠ [] := by
  unfold fragmentsAfter at h
  split at h
  · split at h
    · cases h
    split at h
    · cases h
    · obtain ⟨rest, -, rfl⟩ := map_eq_ok.1 h
      simp
  split at h
  · obtain ⟨rest, -, rfl⟩ := map_eq_ok.1 h
    simp
  split at h
  · obtain ⟨rest, -, rfl⟩ := map_eq_ok.1 h
    simp
  split at h
  · cases h
  · obtain ⟨rest, -, rfl⟩ := map_eq_ok.1 h
    simp

namespace Groups

/-- Groups in which only the last may be empty. `started` says whether the first one has tokens
already that are not listed. -/
def Separated (started : Bool) : List (List Token) → Prop
  | [] => False
  | [_] => True
  | first :: next :: others => (started = true ∨ first ≠ []) ∧ Separated false (next :: others)

theorem Separated.cons {started : Bool} {g : Groups} (h : Separated started g.groups)
    (started' : Bool) (t : Token) : Separated started' (cons t g).groups := by
  unfold Groups.cons
  split
  · trivial
  · rename_i first others heq
    rw [heq] at h
    cases others with
    | nil => trivial
    | cons next others => exact ⟨.inr nofun, h.2⟩

theorem separated_of_split {ending : Error} {depth : Nat} {started : Bool} {ts : List Token}
    {g : Groups} (h : split ending depth started ts = .ok g) : Separated started g.groups := by
  induction ts generalizing depth started g with
  | nil => cases h
  | cons t ts ih =>
    have hcons : ∀ {d b}, Groups.cons t <$> split ending d b ts = .ok g →
        Separated started g.groups := by
      intro d b hg
      obtain ⟨g', hsplit, rfl⟩ := map_eq_ok.1 hg
      exact (ih hsplit).cons started t
    unfold split at h
    split at h
    · cases h
      trivial
    split at h
    · exact hcons h
    split at h
    · split at h
      · cases h
      · exact hcons h
    split at h
    · split at h
      · rename_i hstarted
        obtain ⟨g', hsplit, rfl⟩ := map_eq_ok.1 h
        have hrest := ih hsplit
        cases hgroups : g'.groups with
        | nil => rw [hgroups] at hrest; exact hrest.elim
        | cons next others =>
          rw [hgroups] at hrest
          exact ⟨.inl hstarted, hrest⟩
      · cases h
    · exact hcons h

theorem Separated.ne_nil {groups : List (List Token)} (h : Separated false groups)
    (hlast : groups.getLast? ≠ some []) : groups ≠ [] ∧ ∀ group ∈ groups, group ≠ [] := by
  induction groups with
  | nil => exact h.elim
  | cons first others ih =>
    refine ⟨nofun, ?_⟩
    cases others with
    | nil =>
      intro group hmem
      rw [List.mem_singleton.1 hmem]
      rintro rfl
      exact hlast rfl
    | cons next others =>
      obtain ⟨hfirst, hrest⟩ := h
      intro group hmem
      rcases List.mem_cons.1 hmem with rfl | hmem
      · simpa using hfirst
      · exact (ih hrest (by simpa [List.getLast?_cons_cons] using hlast)).2 group hmem

/-- A selector list has a selector, and each has a fragment. -/
theorem fragments_ne_nil {ending : Error} {ts : List Token} {g : Groups}
    {selectors : List Selector} (hsplit : split ending 0 false ts = .ok g)
    (h : g.selectors = .ok selectors) :
    selectors ≠ [] ∧ ∀ s ∈ selectors, s.fragments ≠ [] := by
  unfold Groups.selectors at h
  split at h
  · cases h
  · rename_i hlast
    obtain ⟨hne, hgroups⟩ := (separated_of_split hsplit).ne_nil hlast
    have hall := mapM_eq_ok.1 h
    refine ⟨?_, ?_⟩
    · rintro rfl
      exact hne (List.forall₂_nil_right_iff.1 hall)
    · intro s hs
      obtain ⟨group, hmem, hread⟩ := exists_of_mem_mapM h hs
      obtain ⟨t, rest, rfl⟩ := List.exists_cons_of_ne_nil (hgroups group hmem)
      obtain ⟨fs, hfs, rfl⟩ := map_eq_ok.1 hread
      exact fragmentsAfter_ne_nil hfs

end Groups

end Selector

end ScopedCss
