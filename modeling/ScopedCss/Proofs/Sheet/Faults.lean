/-
How reading a sheet ends. `step_eq_failed` lists where a step can fail; `exists_last` carries what
every step keeps to the state in which reading comes to its sheet or its fault; and each move takes
tokens from the front and gives back the rest as it was (`Moves.suffix`).
-/
import ScopedCss.Proofs.Selector.Faults
import ScopedCss.Proofs.Sheet.Reading

namespace ScopedCss

namespace Declaration

theorem dropSemicolon_suffix (ts : List Token) : dropSemicolon ts <:+ ts := by
  unfold dropSemicolon
  split
  · exact List.suffix_rfl
  · split
    · exact List.suffix_cons _ _
    · exact List.suffix_rfl

theorem readDeclaration_suffix (key : Token) (ts : List Token) :
    (readDeclaration key ts).2 <:+ ts := by
  have hts := List.takeWhile_append_dropWhile (p := fun t : Token => !t.isTerminator) (l := ts)
  simp only [readDeclaration]
  split
  · rename_i n hown
    refine ⟨(ts.takeWhile (!·.isTerminator)).take n, ?_⟩
    rw [← List.append_assoc, List.take_append_drop, hts]
  · exact (dropSemicolon_suffix _).trans (List.dropWhile_suffix _)

theorem readUnterminated_suffix (key : Token) (ts : List Token) :
    (readUnterminated key ts).2 <:+ ts := List.drop_suffix _ _

end Declaration

namespace Sheet

/-- A move leaves the end of the tokens as it was. -/
theorem Moves.suffix {ending : Ending} {s s' : State} (h : Moves ending s s') :
    s'.tokens <:+ s.tokens := by
  cases h with
  | close htokens => rw [htokens]; exact List.suffix_cons _ _
  | skip htokens => rw [htokens]; exact List.suffix_cons _ _
  | @atRule _ _ brace ts rest htokens _ _ hbody =>
    have hbrace : brace :: rest <:+ ts := hbody ▸ List.dropWhile_suffix inCondition
    rw [htokens]
    exact ((List.suffix_cons _ _).trans hbrace).trans
      ((List.suffix_cons _ _).trans (List.suffix_cons _ _))
  | declaration htokens =>
    rw [htokens]
    exact (Declaration.readDeclaration_suffix _ _).trans (List.suffix_cons _ _)
  | @unterminated t ts htokens =>
    rw [htokens]
    exact (Declaration.readUnterminated_suffix t ts).trans (List.suffix_cons _ _)
  | rule htokens _ _ hsplit =>
    obtain ⟨-, front, hts, -⟩ := Selector.Groups.split_spec hsplit
    rw [htokens, hts]
    exact (List.suffix_cons _ _).trans (List.suffix_append _ _)

/-- Why a step fails: the failure of the lexer, or a fault of the grammar at a token, at the brace
of an open block or at the end of the source. -/
inductive Fails (ending : Ending) (s : State) : Error → Prop
  | lexical {e : Error} (failure : ending.failure = some e) : Fails ending s e
  | token {e : Error} (found : e.FoundAt s.tokens) : Fails ending s e
  | block {fault : GrammarFault} {b : Block} (opened : b ∈ s.blocks) :
      Fails ending s (.grammar fault b.opening)
  | ending {fault : GrammarFault} : Fails ending s (.grammar fault ending.place)

/-- Where the tokens run out, the lexer's failure takes the place of a fault of the grammar. -/
theorem Fails.getD {ending : Ending} {s : State} {e : Error} (h : Fails ending s e) :
    Fails ending s (ending.failure.getD e) := by
  cases hfailure : ending.failure with
  | none => exact h
  | some e' => exact .lexical hfailure

theorem fails_of_stepAtRule {ending : Ending} {s : State} {sign : Token} {ts : List Token}
    {e : Error} (htokens : s.tokens = sign :: ts) (h : stepAtRule ending s sign ts = .failed e) :
    Fails ending s e := by
  have hsign : ∀ fault, Fails ending s (.grammar fault sign.location) := fun fault =>
    .token (htokens ▸ Error.foundAt_head fault sign ts)
  unfold stepAtRule at h
  split at h
  · cases h
    exact (hsign _).getD
  · rename_i name ts
    split at h
    · cases h
      exact hsign _
    · split at h
      · cases h
        exact (hsign _).getD
      · rename_i t rest hbody
        split at h
        · cases h
        · cases h
          have ht : t ∈ ts :=
            (List.dropWhile_sublist inCondition).subset (hbody ▸ List.mem_cons_self)
          refine .token ⟨_, t, ?_, rfl⟩
          rw [htokens]
          exact List.mem_cons_of_mem _ (List.mem_cons_of_mem _ ht)

theorem fails_of_stepRule {ending : Ending} {s : State} {t : Token} {ts : List Token} {e : Error}
    (htokens : s.tokens = t :: ts) (h : stepRule ending s t ts = .failed e) : Fails ending s e := by
  unfold stepRule at h
  split at h
  · rename_i e' hsplit
    cases h
    rcases Selector.Groups.split_error hsplit with rfl | hfound
    · exact Fails.ending.getD
    · exact .token (htokens ▸ hfound)
  · rename_i g hsplit
    split at h
    · rename_i e' hread
      cases h
      exact .token (htokens ▸ Selector.Groups.selectors_error hsplit hread)
    · cases h

theorem failure_of_startsRule {ending : Ending} {depth : Nat} {ts : List Token} {e : Error}
    (h : startsRule ending depth ts = .error e) : ending.failure = some e := by
  induction ts generalizing depth with
  | nil =>
    unfold startsRule at h
    split at h
    · rename_i e' hfailure
      cases h
      exact hfailure
    · cases h
  | cons t ts ih =>
    unfold startsRule at h
    split at h
    · exact ih h
    split at h
    · cases h
    split at h
    · cases h
    · exact ih h

theorem step_eq_failed {ending : Ending} {s : State} {e : Error}
    (h : step ending s = .failed e) : Fails ending s e := by
  unfold step at h
  split at h
  · split at h
    · rename_i e' hfailure
      cases h
      exact .lexical hfailure
    · rename_i b blocks hfailure hblocks
      cases h
      exact .block (hblocks ▸ List.mem_cons_self)
    · cases h
  · rename_i t ts htokens
    split at h
    · split at h
      · cases h
        exact .token (htokens ▸ Error.foundAt_head ..)
      · cases h
    split at h
    · cases h
    split at h
    · exact fails_of_stepAtRule htokens h
    split at h
    · rename_i e' hstarts
      cases h
      exact .lexical (failure_of_startsRule hstarts)
    · cases h
    · split at h
      · rename_i e' hsecond
        cases h
        unfold Ending.beforeSecond at hsecond
        split at hsecond
        · cases hsecond
        · exact .lexical hsecond
      · split at h
        · cases h
        · exact fails_of_stepRule htokens h

/-- Reading comes to an end, in a state in which all holds that every step keeps. -/
theorem exists_last {P : State → Prop} {ending : Ending} {s : State}
    (keeps : ∀ s s', step ending s = .next s' → P s → P s') (hs : P s) :
    ∃ last, P last ∧
      ((∃ sheet, step ending last = .done sheet ∧ (run ending s).result = .ok sheet) ∨
        ∃ e, step ending last = .failed e ∧ (run ending s).result = .error e) := by
  induction s using run.induct ending with
  | case1 s s' hstep _ ih =>
    rw [run_of_next hstep]
    exact ih (keeps s s' hstep hs)
  | case2 s sheet hstep =>
    rw [run_of_done hstep]
    exact ⟨s, hs, .inl ⟨sheet, hstep, rfl⟩⟩
  | case3 s e hstep =>
    rw [run_of_failed hstep]
    exact ⟨s, hs, .inr ⟨e, hstep, rfl⟩⟩

end Sheet

end ScopedCss
