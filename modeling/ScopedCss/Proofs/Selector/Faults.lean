/-
Where reading selectors fails: at one of their tokens (`fragmentsAfter_error`), at the brace after
them, or where the tokens run out (`Groups.split_error`). What is read is made of tokens that were
there, in their order (`Groups.split_spec`).
-/
import ScopedCss.Proofs.Except
import ScopedCss.Selector.Parser

namespace ScopedCss

/-- A fault of the grammar, found at one of `tokens`. -/
def Error.FoundAt (tokens : List Token) (e : Error) : Prop :=
  ∃ fault, ∃ t ∈ tokens, e = .grammar fault t.location

theorem Error.FoundAt.mono {ts us : List Token} {e : Error} (h : e.FoundAt ts) (hsub : ts ⊆ us) :
    e.FoundAt us := by
  obtain ⟨fault, t, ht, he⟩ := h
  exact ⟨fault, t, hsub ht, he⟩

theorem Error.foundAt_head (fault : GrammarFault) (t : Token) (ts : List Token) :
    (Error.grammar fault t.location).FoundAt (t :: ts) :=
  ⟨fault, t, List.mem_cons_self, rfl⟩

namespace Selector

variable {e : Error}

theorem bracketLength_error {opening : Token} {closer : Char} {outer : List Char}
    {ts : List Token} (h : bracketLength opening closer outer ts = .error e) :
    e.FoundAt (opening :: ts) := by
  induction ts generalizing closer outer with
  | nil =>
    cases h
    exact Error.foundAt_head ..
  | cons t ts ih =>
    have hrest : ∀ {c o}, (· + 1) <$> bracketLength opening c o ts = .error e →
        e.FoundAt (opening :: t :: ts) := by
      intro c o hmap
      exact (ih (map_eq_error.1 hmap)).mono (by simp)
    unfold bracketLength at h
    split at h
    · exact hrest h
    split at h
    · split at h
      · split at h
        · cases h
        · exact hrest h
      · cases h
        exact ⟨_, t, by simp, rfl⟩
    · exact hrest h

theorem argumentLength_error {ts : List Token} (h : argumentLength ts = .error e) :
    e.FoundAt ts := by
  unfold argumentLength at h
  split at h
  · cases h
  · split at h
    · exact bracketLength_error (map_eq_error.1 h)
    · cases h

theorem pseudoNameLength_error {colon : Token} {ts : List Token}
    (h : pseudoNameLength colon ts = .error e) : e.FoundAt (colon :: ts) := by
  unfold pseudoNameLength at h
  split at h
  · cases h
    exact Error.foundAt_head ..
  · split at h
    · exact (argumentLength_error (map_eq_error.1 h)).mono (by simp)
    · cases h
      exact Error.foundAt_head ..

theorem pseudoLength_error {colon : Token} {ts : List Token}
    (h : pseudoLength colon ts = .error e) : e.FoundAt (colon :: ts) := by
  unfold pseudoLength at h
  split at h
  · exact pseudoNameLength_error h
  · split at h
    · exact (pseudoNameLength_error (map_eq_error.1 h)).mono (by simp)
    · exact pseudoNameLength_error h

theorem nameLength_error {t : Token} {ts : List Token} (h : nameLength t ts = .error e) :
    e.FoundAt (t :: ts) := by
  unfold nameLength at h
  split at h
  · cases h
    exact Error.foundAt_head ..
  · split at h
    · cases h
    · cases h
      exact Error.foundAt_head ..

theorem simpleLength_error {t : Token} {ts : List Token} (h : simpleLength t ts = .error e) :
    e.FoundAt (t :: ts) := by
  unfold simpleLength at h
  split at h
  · exact bracketLength_error h
  split at h
  · exact nameLength_error h
  split at h
  · exact pseudoLength_error h
  · cases h

/-- Reading a selector fails at one of its tokens. -/
theorem fragmentsAfter_error {previous : Option Fragment} {tokens : List Token}
    (h : fragmentsAfter previous tokens = .error e) : e.FoundAt tokens := by
  fun_induction fragmentsAfter previous tokens with
  | case1 => cases h
  | case2 previous t ts =>
    cases h
    exact Error.foundAt_head ..
  | case3 previous t ts =>
    cases h
    exact Error.foundAt_head ..
  | case4 previous t ts _ _ _ fragment ih => exact (ih (map_eq_error.1 h)).mono (by simp)
  | case5 previous t ts _ _ ih => exact (ih (map_eq_error.1 h)).mono (by simp)
  | case6 previous t ts _ _ _ fragment ih => exact (ih (map_eq_error.1 h)).mono (by simp)
  | case7 previous t ts _ _ _ e' hsimple =>
    cases h
    exact simpleLength_error hsimple
  | case8 previous t ts _ _ _ n hsimple fragment ih =>
    refine (ih (map_eq_error.1 h)).mono fun u hu => ?_
    exact List.mem_cons_of_mem t ((List.drop_sublist n ts).subset hu)

theorem ofTokens_error {tokens : List Token} (h : ofTokens tokens = .error e) : e.FoundAt tokens :=
  fragmentsAfter_error (map_eq_error.1 h)

namespace Groups

@[simp] theorem brace_cons (t : Token) (g : Groups) : (cons t g).brace = g.brace := by
  unfold cons
  split <;> rfl

@[simp] theorem rest_cons (t : Token) (g : Groups) : (cons t g).rest = g.rest := by
  unfold cons
  split <;> rfl

@[simp] theorem flatten_cons (t : Token) (g : Groups) :
    (cons t g).groups.flatten = t :: g.groups.flatten := by
  unfold cons
  split
  · rename_i hgroups
    simp [hgroups]
  · rename_i first others hgroups
    simp [hgroups]

/-- A selector list is what stands before a brace, less the commas. -/
theorem split_spec {ending : Error} {depth : Nat} {started : Bool} {ts : List Token} {g : Groups}
    (h : split ending depth started ts = .ok g) :
    g.brace.isMark '\x7b' = true ∧
      ∃ front, ts = front ++ g.brace :: g.rest ∧ g.groups.flatten.Sublist front := by
  induction ts generalizing depth started g with
  | nil => cases h
  | cons t ts ih =>
    have hcons : ∀ {d b}, Groups.cons t <$> split ending d b ts = .ok g →
        g.brace.isMark '\x7b' = true ∧
          ∃ front, t :: ts = front ++ g.brace :: g.rest ∧ g.groups.flatten.Sublist front := by
      intro d b hg
      obtain ⟨g', hsplit, rfl⟩ := map_eq_ok.1 hg
      obtain ⟨hbrace, front, hts, hsub⟩ := ih hsplit
      refine ⟨by simpa using hbrace, t :: front, by simp [hts], ?_⟩
      rw [flatten_cons]
      exact hsub.cons_cons t
    unfold split at h
    split at h
    · rename_i hbrace
      cases h
      simp only [Bool.and_eq_true] at hbrace
      exact ⟨hbrace.2, [], rfl, List.Sublist.refl _⟩
    split at h
    · exact hcons h
    split at h
    · split at h
      · cases h
      · exact hcons h
    split at h
    · split at h
      · obtain ⟨g', hsplit, rfl⟩ := map_eq_ok.1 h
        obtain ⟨hbrace, front, hts, hsub⟩ := ih hsplit
        exact ⟨hbrace, t :: front, by simp [hts], hsub.cons t⟩
      · cases h
    · exact hcons h

theorem split_error {ending : Error} {depth : Nat} {started : Bool} {ts : List Token}
    (h : split ending depth started ts = .error e) : e = ending ∨ e.FoundAt ts := by
  induction ts generalizing depth started with
  | nil =>
    cases h
    exact .inl rfl
  | cons t ts ih =>
    have hrest : ∀ {d b}, split ending d b ts = .error e → e = ending ∨ e.FoundAt (t :: ts) := by
      intro d b hs
      exact (ih hs).imp_right fun hat => hat.mono (List.subset_cons_self t ts)
    unfold split at h
    split at h
    · cases h
    split at h
    · exact hrest (map_eq_error.1 h)
    split at h
    · split at h
      · cases h
        exact .inr (Error.foundAt_head ..)
      · exact hrest (map_eq_error.1 h)
    split at h
    · split at h
      · exact hrest (map_eq_error.1 h)
      · cases h
        exact .inr (Error.foundAt_head ..)
    · exact hrest (map_eq_error.1 h)

theorem selectors_error {ending : Error} {depth : Nat} {started : Bool} {ts : List Token}
    {g : Groups} (hsplit : split ending depth started ts = .ok g) (h : g.selectors = .error e) :
    e.FoundAt ts := by
  obtain ⟨-, front, rfl, hsub⟩ := split_spec hsplit
  unfold selectors at h
  split at h
  · cases h
    exact ⟨_, g.brace, by simp, rfl⟩
  · obtain ⟨group, hgroup, hread⟩ := exists_of_mapM_eq_error h
    refine (ofTokens_error hread).mono fun t ht => ?_
    have hmem := hsub.subset (List.mem_flatten.2 ⟨group, hgroup, ht⟩)
    exact List.mem_append_left _ hmem

end Groups

end Selector

end ScopedCss
