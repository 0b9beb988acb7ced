/-
Where a declaration ends. The look ahead that tells a declaration from a rule passes over whatever
stands in brackets (`Token.enclosed`), but the declaration is then read up to the first `;` or
closing brace, in brackets or not. `Sheet.Covers` says which tokens the declarations take that are
read from there, and `Sheet.covers_iff` when these are all that the look ahead passed over.
-/
import ScopedCss.Proofs.Sheet.Checked
import ScopedCss.Proofs.Sheet.Level
import ScopedCss.Proofs.Sheet.Order

namespace ScopedCss

open Declaration (depthAfter propertyIndex nextProperty ownLength? dropSemicolon beforeBrace)
open Sheet (inCondition startsRule)

/-! ### Tokens in brackets -/

namespace Token

/-- Whether every `;` and brace stands in brackets and none of these is left open; `depth` of them
are open in front. -/
def enclosed (depth : Nat) : List Token → Bool
  | [] => depth = 0
  | t :: ts => (inCondition t || depth ≠ 0) && enclosed (depthAfter depth t) ts

theorem foldl_of_enclosed {d : Nat} {ts : List Token} (h : enclosed d ts = true) :
    ts.foldl depthAfter d = 0 := by
  induction ts generalizing d with
  | nil => simpa [enclosed] using h
  | cons t ts ih => exact ih (Bool.and_eq_true_iff.1 h).2

theorem foldl_depthAfter_mono {d d' : Nat} (h : d ≤ d') (ts : List Token) :
    ts.foldl depthAfter d ≤ ts.foldl depthAfter d' := by
  induction ts generalizing d d' with
  | nil => exact h
  | cons t ts ih => exact ih (depthAfter_mono h t)

/-- Brackets that are closed at the end are closed there too if some in front are not counted. -/
theorem foldl_depthAfter_drop {ts : List Token} (h : ts.foldl depthAfter 0 = 0) (n : Nat) :
    (ts.drop n).foldl depthAfter 0 = 0 := by
  have hle := foldl_depthAfter_mono (Nat.zero_le ((ts.take n).foldl depthAfter 0)) (ts.drop n)
  rw [← List.foldl_append, List.take_append_drop, h] at hle
  omega

/-- In front of a `;` or brace outside brackets stands the first one. -/
theorem exists_enclosed {d : Nat} {us : List Token} {w : Token} (hw : inCondition w = false)
    (h : us.foldl depthAfter d = 0) (rest : List Token) :
    ∃ us' w' rest', us ++ w :: rest = us' ++ w' :: rest' ∧ us'.length ≤ us.length ∧
      enclosed d us' = true ∧ inCondition w' = false := by
  induction us generalizing d with
  | nil => exact ⟨[], w, rest, rfl, Nat.le_refl 0, by simpa [enclosed] using h, hw⟩
  | cons u us ih =>
    by_cases hu : inCondition u = true ∨ d ≠ 0
    · obtain ⟨us', w', rest', heq, hle, henclosed, hw'⟩ := ih h
      refine ⟨u :: us', w', rest', by simp [heq], by simpa using hle, ?_, hw'⟩
      simp only [enclosed, henclosed, Bool.and_true, Bool.or_eq_true, decide_eq_true_eq]
      exact hu
    · rw [not_or, not_not] at hu
      refine ⟨[], u, us ++ w :: rest, rfl, Nat.zero_le _, ?_, by simpa using hu.1⟩
      simp [enclosed, hu.2]

end Token

/-! ### The look ahead -/

namespace Sheet

theorem isTerminator_of_not_inCondition {w : Token} (hw : inCondition w = false) :
    w.isTerminator = !w.isMark '\x7b' := by
  cases hbrace : w.isMark '\x7b' with
  | true => simp [Token.isTerminator, Token.isMark_eq hbrace]
  | false => simpa [inCondition, hbrace] using hw

/-- The look ahead finds the first `;` or brace outside brackets. -/
theorem startsRule_enclosed {ending : Ending} {d : Nat} {us : List Token} {w : Token}
    (h : Token.enclosed d us = true) (hw : inCondition w = false) (rest : List Token) :
    startsRule ending d (us ++ w :: rest) = .ok (w.isMark '\x7b') := by
  induction us generalizing d with
  | nil =>
    have hd : d = 0 := by simpa [Token.enclosed] using h
    have hbracket : ¬(w.isOpener = true ∨ w.isCloser = true) := by
      intro hb
      rw [Token.inCondition_of_bracket hb] at hw
      cases hw
    rw [List.nil_append, startsRule, if_neg (by simpa using hbracket), hd]
    cases hbrace : w.isMark '\x7b' with
    | true => simp
    | false => simp [isTerminator_of_not_inCondition hw, hbrace]
  | cons u us ih =>
    simp only [Token.enclosed, Bool.and_eq_true, Bool.or_eq_true, decide_eq_true_eq] at h
    rw [List.cons_append, startsRule]
    by_cases hbracket : u.isOpener = true ∨ u.isCloser = true
    · rw [if_pos (by simpa using hbracket), ih h.2]
    · rw [if_neg (by simpa using hbracket), if_neg ?_, if_neg ?_,
        ← Token.depthAfter_of_not_bracket hbracket d, ih h.2]
      · rw [Bool.and_eq_true, decide_eq_true_eq]
        rintro ⟨hd, hend⟩
        simp [inCondition, hd, hend] at h
      · rw [Bool.and_eq_true, decide_eq_true_eq]
        rintro ⟨hd, hbrace⟩
        simp [inCondition, hd, hbrace] at h

/-- A look ahead that comes to a `;` or closing brace comes to it from any place on the way, if the
depth is kept. -/
theorem startsRule_of_append {ending : Ending} {d : Nat} {us rest : List Token}
    (hus : ∀ t ∈ us, t.isTerminator = false)
    (h : startsRule ending d (us ++ rest) = .ok false) :
    startsRule ending (us.foldl depthAfter d) rest = .ok false := by
  induction us generalizing d with
  | nil => exact h
  | cons u us ih =>
    obtain ⟨hu, hus⟩ := List.forall_mem_cons.1 hus
    refine ih hus ?_
    rw [List.cons_append, startsRule] at h
    by_cases hbracket : u.isOpener = true ∨ u.isCloser = true
    · rwa [if_pos (by simpa using hbracket)] at h
    · rw [if_neg (by simpa using hbracket)] at h
      rw [Token.depthAfter_of_not_bracket hbracket]
      split at h
      · cases h
      · rwa [if_neg (by simp [hu])] at h

end Sheet

namespace Declaration

theorem exists_of_propertyIndex {d n : Nat} {ts : List Token} (h : propertyIndex d ts = some n) :
    ∃ us t more, ts = us ++ t :: more ∧ us.length = n ∧ t.kind = .ident ∧
      us.foldl depthAfter d = 0 := by
  induction ts generalizing d n with
  | nil => cases h
  | cons t ts ih =>
    simp only [propertyIndex] at h
    split at h
    · rename_i hfound
      cases h
      simp only [Bool.and_eq_true, decide_eq_true_eq] at hfound
      obtain ⟨⟨⟨hdepth, hkind⟩, -⟩, -⟩ := hfound
      refine ⟨[], t, ts, rfl, rfl, hkind, ?_⟩
      simpa [depthAfter, Token.isOpener, Token.isCloser, Token.isMark_of_ident hkind] using hdepth
    · obtain ⟨m, hm, rfl⟩ := Option.map_eq_some_iff.1 h
      obtain ⟨us, u, more, rfl, rfl, hkind, hdepth⟩ := ih hm
      exact ⟨t :: us, u, more, rfl, rfl, hkind, hdepth⟩

/-- A declaration that runs into another one gives it back from a name outside brackets on. -/
theorem exists_of_ownLength {body : List Token} {n : Nat} (h : ownLength? body = some n) :
    ∃ us t more, body = us ++ t :: more ∧ us.length = n ∧ t.kind = .ident ∧
      us.foldl depthAfter 0 = 0 := by
  unfold ownLength? at h
  split at h
  · cases h
  split at h
  · rename_i colon value hcolon
    obtain ⟨m, hm, rfl⟩ := Option.map_eq_some_iff.1 h
    unfold nextProperty at hm
    split at hm
    · cases hm
    · rename_i t ts
      obtain ⟨k, hk, rfl⟩ := Option.map_eq_some_iff.1 hm
      obtain ⟨us, u, more, rfl, rfl, hkind, hdepth⟩ := exists_of_propertyIndex hk
      have hfirst : depthAfter 0 colon = 0 := by
        simp [depthAfter, Token.isOpener, Token.isCloser, Token.isMark_eq hcolon]
      exact ⟨colon :: t :: us, u, more, rfl, rfl, hkind, by simpa [hfirst] using hdepth⟩
  · cases h

theorem split_body {body left : List Token} (hbody : ∀ t ∈ body, t.isTerminator = false)
    (hleft : ∀ t ∈ left.head?, t.isTerminator = true) :
    (body ++ left).takeWhile (!·.isTerminator) = body ∧
      (body ++ left).dropWhile (!·.isTerminator) = left := by
  have hbody : ∀ t ∈ body, (!t.isTerminator) = true := fun t ht => by simp [hbody t ht]
  rw [List.takeWhile_append_of_pos hbody, List.dropWhile_append_of_pos hbody]
  cases left with
  | nil => simp
  | cons t ts => simp [hleft t rfl]

theorem exists_body (ts : List Token) :
    ∃ body left, ts = body ++ left ∧ (∀ t ∈ body, t.isTerminator = false) ∧
      ∀ t ∈ left.head?, t.isTerminator = true := by
  refine ⟨ts.takeWhile (!·.isTerminator), ts.dropWhile (!·.isTerminator),
    List.takeWhile_append_dropWhile.symm, fun t ht => ?_, fun t ht => ?_⟩
  · simpa using List.mem_takeWhile_imp ht
  · have hhead := List.head?_dropWhile_not (fun t : Token => !t.isTerminator) ts
    rw [ht] at hhead
    simpa using hhead

theorem length_le_of_terminator {body left us rest : List Token} {w : Token}
    (h : body ++ left = us ++ w :: rest) (hbody : ∀ t ∈ body, t.isTerminator = false)
    (hw : w.isTerminator = true) : body.length ≤ us.length := by
  rcases List.append_eq_append_iff.1 h with ⟨vs, rfl, -⟩ | ⟨vs, rfl, hvs⟩
  · simp
  · cases vs with
    | nil => simp
    | cons v vs =>
      cases hvs
      rw [hbody w (by simp)] at hw
      cases hw

theorem length_beforeBrace_le {d : Nat} {us : List Token} {w : Token}
    (hw : w.isMark '\x7b' = true) (h : us.foldl depthAfter d = 0) (rest : List Token) :
    (beforeBrace d (us ++ w :: rest)).length ≤ us.length := by
  induction us generalizing d with
  | nil =>
    have hd : d = 0 := h
    simp [beforeBrace, hw, hd]
  | cons u us ih =>
    rw [List.cons_append, beforeBrace]
    split
    · exact Nat.zero_le _
    · exact Nat.succ_le_succ (ih h)

end Declaration

/-! ### What declarations take -/

namespace Sheet

/-- A step reads a declaration that is made of `key` and `body`, the tokens in front, and goes on at
`left` or behind the `;` there. A `;` or closing brace is not the last of its tokens. -/
structure Takes (ending : Ending) (s : State) (key : Token) (body left : List Token) (s' : State) :
    Prop where
  tokens : s.tokens = key :: (body ++ left)
  ends : ∀ t ∈ body.getLast?, t.isTerminator = false
  reads : ∃ d rest, Declaration.MadeOf key body d ∧ (rest = left ∨ rest = dropSemicolon left) ∧
    s' = s.addDeclaration (d, rest)
  step : step ending s = .next s'

/-- The tokens that declarations are made of: the one read next, and as long as a declaration ends
where neither a `;` nor a closing brace follows, the one read from what it gives back. -/
inductive Covers (ending : Ending) : State → List Token → Prop
  | last {s s' : State} {key : Token} {body left : List Token}
      (takes : Takes ending s key body left s')
      (stops : ∀ t ∈ left.head?, t.isTerminator = true) : Covers ending s (key :: body)
  | back {s s' : State} {key : Token} {body left own : List Token}
      (takes : Takes ending s key body left s')
      (given : ∃ t ∈ left.head?, t.isTerminator = false)
      (again : Covers ending s' own) : Covers ending s (key :: body ++ own)

variable {ending : Ending} {s s' s'' : State} {key key' : Token}
  {body body' left left' own own' : List Token}

theorem eq_or_cons_of_left {rest : List Token} (h : rest = left ∨ rest = dropSemicolon left) :
    left = rest ∨ ∃ t, t.isMark ';' = true ∧ left = t :: rest := by
  rcases h with rfl | rfl
  · exact .inl rfl
  · cases left with
    | nil => exact .inl rfl
    | cons t ts =>
      simp only [dropSemicolon]
      split
      · rename_i hmark
        exact .inr ⟨t, hmark, rfl⟩
      · exact .inl rfl

theorem items_of_stepAtRule {sign : Token} {ts : List Token}
    (h : stepAtRule ending s sign ts = .next s') : s'.items = [] := by
  unfold stepAtRule at h
  split at h
  · cases h
  split at h
  · cases h
  split at h
  · cases h
  split at h
  · cases h
    rfl
  · cases h

theorem items_of_stepRule {t : Token} {ts : List Token} (h : stepRule ending s t ts = .next s') :
    s'.items = [] := by
  unfold stepRule at h
  split at h
  · cases h
  split at h
  · cases h
  · cases h
    rfl

namespace Takes

theorem rest (h : Takes ending s key body left s') :
    left = s'.tokens ∨ ∃ t, t.isMark ';' = true ∧ left = t :: s'.tokens := by
  obtain ⟨d, rest, -, hrest, rfl⟩ := h.reads
  exact eq_or_cons_of_left hrest

theorem tokens_of_given (h : Takes ending s key body left s')
    (given : ∃ t ∈ left.head?, t.isTerminator = false) : s'.tokens = left := by
  obtain ⟨t, ht, hgiven⟩ := given
  rcases h.rest with hleft | ⟨u, hmark, hleft⟩
  · exact hleft.symm
  · rw [hleft] at ht
    cases ht
    simp [Token.isTerminator, hmark] at hgiven

/-- A `;` behind a declaration is not one of its tokens. -/
theorem not_append_semicolon (h : Takes ending s key body left s') {front : List Token} {t : Token}
    (hmark : t.isMark ';' = true) : body ≠ front ++ [t] := by
  rintro rfl
  have hends := h.ends t (by simp)
  simp [Token.isTerminator, hmark] at hends

theorem unique (h : Takes ending s key body left s') (h' : Takes ending s key' body' left' s'') :
    key = key' ∧ body = body' ∧ left = left' ∧ s' = s'' := by
  have hstate : s' = s'' := Step.next.inj (h.step.symm.trans h'.step)
  obtain ⟨hkey, htokens⟩ := List.cons.inj (h.tokens.symm.trans h'.tokens)
  have hrest := h'.rest
  rw [← hstate] at hrest
  have hleft : left = left' := by
    rcases h.rest with hl | ⟨t, ht, hl⟩ <;> rcases hrest with hl' | ⟨t', ht', hl'⟩
    · rw [hl, hl']
    · -- the second leaves a `;` that is the last token of the first
      rw [hl, hl', List.append_cons] at htokens
      exact absurd (List.append_cancel_right htokens) (h.not_append_semicolon ht')
    · rw [hl, hl', List.append_cons] at htokens
      exact absurd (List.append_cancel_right htokens).symm (h'.not_append_semicolon ht)
    · rw [hl, hl'] at htokens ⊢
      exact (List.append_inj' htokens (by simp)).2
  rw [hleft] at htokens
  exact ⟨hkey, List.append_cancel_right htokens, hleft, hstate⟩

/-- What the look ahead says where a declaration is read. -/
theorem look (h : Takes ending s key body left s') :
    key.isTerminator = false ∧ key.isMark '@' = false ∧
      (startsRule ending 0 s.tokens = .ok false ∧
          s' = s.addDeclaration (Declaration.readDeclaration key (body ++ left)) ∨
        startsRule ending 0 s.tokens = .ok true ∧ runsIntoRule s.tokens = true ∧
          s' = s.addDeclaration (Declaration.readUnterminated key (body ++ left))) := by
  obtain ⟨d, rest, -, -, hstate⟩ := h.reads
  have hitems : s'.items = .declaration d :: s.items := by
    rw [hstate]
    rfl
  have hstep := h.step
  rw [Sheet.step, h.tokens] at hstep
  -- all other steps leave other items
  simp only at hstep
  split at hstep
  · split at hstep
    · cases hstep
    · cases hstep
      cases hitems
  rename_i hbrace
  split at hstep
  · cases hstep
    simp at hitems
  rename_i hsemicolon
  split at hstep
  · rw [items_of_stepAtRule hstep] at hitems
    cases hitems
  rename_i hat
  refine ⟨by simp [Token.isTerminator, hbrace, hsemicolon], by simpa using hat, ?_⟩
  rw [h.tokens]
  split at hstep
  · cases hstep
  · rename_i hlook
    exact .inl ⟨hlook, (Step.next.inj hstep).symm⟩
  · rename_i hlook
    split at hstep
    · cases hstep
    split at hstep
    · rename_i hruns
      exact .inr ⟨hlook, hruns, (Step.next.inj hstep).symm⟩
    · rw [items_of_stepRule hstep] at hitems
      cases hitems

end Takes

/-- Where a look ahead for a brace finds none, a declaration is read. -/
theorem step_of_look {ts : List Token} (htokens : s.tokens = key :: ts)
    (hkey : key.isTerminator = false) (hat : key.isMark '@' = false)
    (hlook : startsRule ending 0 s.tokens = .ok false) :
    step ending s = .next (s.addDeclaration (Declaration.readDeclaration key ts)) := by
  simp only [Token.isTerminator, Bool.or_eq_false_iff] at hkey
  rw [htokens] at hlook
  rw [step, htokens]
  simp only [hkey, hat, hlook, Bool.false_eq_true, if_false]

section Read

variable (htokens : s.tokens = key :: (body ++ left)) (hkey : key.isTerminator = false)
  (hat : key.isMark '@' = false) (hlook : startsRule ending 0 s.tokens = .ok false)
  (hbody : ∀ t ∈ body, t.isTerminator = false) (hleft : ∀ t ∈ left.head?, t.isTerminator = true)

include htokens hkey hat hlook hbody hleft

/-- A declaration that runs into no other goes up to the first `;` or closing brace. -/
theorem takes_whole (hown : ownLength? body = none) :
    Takes ending s key body left
      (s.addDeclaration (Declaration.readDeclaration key (body ++ left))) := by
  obtain ⟨htake, hdrop⟩ := Declaration.split_body hbody hleft
  have hread : Declaration.readDeclaration key (body ++ left) =
      (Declaration.ofTokens key body, dropSemicolon left) := by
    rw [Declaration.readDeclaration]
    simp only [htake, hdrop, hown]
  refine ⟨htokens, fun t ht => hbody t (List.mem_of_getLast? ht), ?_,
    step_of_look htokens hkey hat hlook⟩
  exact ⟨_, _, .sound, .inr rfl, by rw [hread]⟩

/-- A declaration that runs into another one gives it back. -/
theorem takes_part {us more : List Token} {t : Token} (hsplit : body = us ++ t :: more)
    (hown : ownLength? body = some us.length) :
    Takes ending s key us (t :: more ++ left)
      (s.addDeclaration (Declaration.readDeclaration key (body ++ left))) := by
  obtain ⟨htake, hdrop⟩ := Declaration.split_body hbody hleft
  have hread : Declaration.readDeclaration key (body ++ left) =
      (Declaration.dangle key us (Declaration.missingSemicolon key), t :: more ++ left) := by
    rw [Declaration.readDeclaration]
    simp only [htake, hdrop, hown]
    simp [hsplit]
  have hus : ∀ u ∈ us, u.isTerminator = false := by
    intro u hu
    exact hbody u (by rw [hsplit]; exact List.mem_append_left _ hu)
  refine ⟨by rw [htokens, hsplit, List.append_assoc], fun u hu => hus u (List.mem_of_getLast? hu),
    ?_, step_of_look htokens hkey hat hlook⟩
  exact ⟨_, _, .dangling _, .inl rfl, by rw [hread]⟩

/-- What is read next: all of `body`, or what comes before the name of another property in it. -/
theorem takes_or_part :
    ownLength? body = none ∧ Takes ending s key body left
        (s.addDeclaration (Declaration.readDeclaration key (body ++ left))) ∨
      ∃ us t more, body = us ++ t :: more ∧ ownLength? body = some us.length ∧ t.kind = .ident ∧
        us.foldl depthAfter 0 = 0 ∧ Takes ending s key us (t :: more ++ left)
          (s.addDeclaration (Declaration.readDeclaration key (body ++ left))) := by
  cases hown : ownLength? body with
  | none => exact .inl ⟨rfl, takes_whole htokens hkey hat hlook hbody hleft hown⟩
  | some n =>
    obtain ⟨us, t, more, hsplit, rfl, hkind, hdepth⟩ := Declaration.exists_of_ownLength hown
    exact .inr ⟨us, t, more, hsplit, rfl, hkind, hdepth,
      takes_part htokens hkey hat hlook hbody hleft hsplit hown⟩

end Read

theorem Takes.length_le_of_declaration (h : Takes ending s key body left s')
    (hlook : startsRule ending 0 s.tokens = .ok false) {us rest : List Token} {w : Token}
    (hrest : body ++ left = us ++ w :: rest) (hw : w.isTerminator = true) :
    body.length ≤ us.length := by
  obtain ⟨hkey, hat, -⟩ := h.look
  obtain ⟨own, after, hsplit, hown, hafter⟩ := Declaration.exists_body (body ++ left)
  have hlength : own.length ≤ us.length :=
    Declaration.length_le_of_terminator (hsplit.symm.trans hrest) hown hw
  have htokens := h.tokens
  rw [hsplit] at htokens
  rcases takes_or_part htokens hkey hat hlook hown hafter with
    ⟨-, htakes⟩ | ⟨vs, t, more, rfl, -, -, -, htakes⟩
  · rwa [(h.unique htakes).2.1]
  · rw [(h.unique htakes).2.1]
    simp only [List.length_append] at hlength
    omega

theorem Takes.length_le_of_unterminated (h : Takes ending s key body left s')
    (hruns : runsIntoRule s.tokens = true)
    (hstate : s' = s.addDeclaration (Declaration.readUnterminated key (body ++ left)))
    {us rest : List Token} {w : Token} (hrest : body ++ left = us ++ w :: rest)
    (hw : w.isMark '\x7b' = true) (hdepth : us.foldl depthAfter 0 = 0) :
    body.length ≤ us.length := by
  rw [h.tokens] at hruns
  have hown := (Checked.unterminatedLength_bounds (Checked.beforeBrace_of_runsIntoRule hruns).2).2
  have hbrace := Declaration.length_beforeBrace_le hw hdepth rest
  rw [← hrest] at hbrace
  have hlength : s'.tokens.length = (body ++ left).length -
      Declaration.unterminatedLength (beforeBrace 0 (body ++ left)) := by
    rw [hstate, ← List.length_drop]
    rfl
  rw [List.length_append] at hlength
  rcases h.rest with hleft | ⟨t, -, hleft⟩
  · have hsame := congrArg List.length hleft
    omega
  · have hmore := congrArg List.length hleft
    rw [List.length_cons] at hmore
    omega

/-- No declaration goes beyond a `;` or brace outside brackets. -/
theorem Takes.length_le (h : Takes ending s key body left s') {us rest : List Token} {w : Token}
    (htokens : s.tokens = us ++ w :: rest) (hdepth : us.foldl depthAfter 0 = 0)
    (hw : inCondition w = false) : body.length + 1 ≤ us.length := by
  obtain ⟨us', w', rest', heq, hle, henclosed, hw'⟩ := Token.exists_enclosed hw hdepth rest
  have hfound : startsRule ending 0 s.tokens = .ok (w'.isMark '\x7b') := by
    rw [htokens, heq]
    exact startsRule_enclosed henclosed hw' rest'
  have hall : key :: (body ++ left) = us' ++ w' :: rest' := by rw [← h.tokens, htokens, heq]
  obtain ⟨hkey, hat, hread⟩ := h.look
  cases us' with
  | nil =>
    -- the key is no brace, as no declaration that runs into a rule begins with one
    cases hall
    have hbrace : key.isMark '\x7b' = true := by simpa [inCondition, hkey] using hw'
    rw [hfound, hbrace] at hread
    rcases hread with ⟨hlook, -⟩ | ⟨-, hruns, -⟩
    · cases hlook
    · rw [h.tokens] at hruns
      have hkind := (Checked.beforeBrace_of_runsIntoRule hruns).1
      rw [Token.isMark_of_ident hkind] at hbrace
      cases hbrace
  | cons u us' =>
    obtain ⟨rfl, hrest⟩ := List.cons.inj hall
    have hlength : body.length ≤ us'.length := by
      rcases hread with ⟨hlook, -⟩ | ⟨hlook, hruns, hstate⟩
      · have hbrace : w'.isMark '\x7b' = false := Except.ok.inj (hfound.symm.trans hlook)
        exact h.length_le_of_declaration hlook hrest
          (by rw [isTerminator_of_not_inCondition hw', hbrace]; rfl)
      · have hbrace : w'.isMark '\x7b' = true := Except.ok.inj (hfound.symm.trans hlook)
        refine h.length_le_of_unterminated hruns hstate hrest hbrace ?_
        exact Token.foldl_depthAfter_drop (Token.foldl_of_enclosed henclosed) 1
    simp only [List.length_cons] at hle
    omega

/-- Nor do those that follow it. -/
theorem Covers.length_le (h : Covers ending s own) {us rest : List Token} {w : Token}
    (htokens : s.tokens = us ++ w :: rest) (hdepth : us.foldl depthAfter 0 = 0)
    (hw : inCondition w = false) : own.length ≤ us.length := by
  induction h generalizing us with
  | last takes _ => exact takes.length_le htokens hdepth hw
  | @back s s' key body left own takes given _ ih =>
    have hlength := takes.length_le htokens hdepth hw
    have hleft : left = us.drop (body.length + 1) ++ w :: rest := by
      have hdrop := congrArg (List.drop (body.length + 1)) (takes.tokens.symm.trans htokens)
      rwa [List.drop_succ_cons, List.drop_left, List.drop_append_of_le_length hlength] at hdrop
    have hagain := ih ((takes.tokens_of_given given).trans hleft)
      (Token.foldl_depthAfter_drop hdepth _)
    rw [List.length_drop] at hagain
    simp only [List.length_append, List.length_cons]
    omega

theorem not_given (stops : ∀ t ∈ left.head?, t.isTerminator = true) :
    ¬∃ t ∈ left.head?, t.isTerminator = false := by
  rintro ⟨t, ht, hgiven⟩
  rw [stops t ht] at hgiven
  cases hgiven

theorem Covers.unique (h : Covers ending s own) (h' : Covers ending s own') : own = own' := by
  induction h generalizing own' with
  | last takes stops =>
    cases h' with
    | last takes' _ =>
      obtain ⟨rfl, rfl, -⟩ := takes.unique takes'
      rfl
    | back takes' given _ =>
      obtain ⟨-, -, rfl, -⟩ := takes.unique takes'
      exact absurd given (not_given stops)
  | back takes given _ ih =>
    cases h' with
    | last takes' stops =>
      obtain ⟨-, -, rfl, -⟩ := takes.unique takes'
      exact absurd given (not_given stops)
    | back takes' _ again' =>
      obtain ⟨rfl, rfl, -, rfl⟩ := takes.unique takes'
      rw [ih again']

/-- Behind a key that opens no bracket, the look ahead from a name that is given back comes to the
same end. -/
theorem look_again (hkey : key.isTerminator = false) (hopener : key.isOpener = false)
    (hbody : ∀ t ∈ body, t.isTerminator = false)
    (hlook : startsRule ending 0 (key :: (body ++ left)) = .ok false) :
    ∀ n, ownLength? body = some n → startsRule ending 0 (body.drop n ++ left) = .ok false := by
  intro n hown
  obtain ⟨us, t, more, rfl, rfl, -, hdepth⟩ := Declaration.exists_of_ownLength hown
  have hfirst : depthAfter 0 key = 0 := by simp [depthAfter, hopener]
  have hus : ∀ u ∈ key :: us, u.isTerminator = false :=
    List.forall_mem_cons.2 ⟨hkey, (List.forall_mem_append.1 hbody).1⟩
  have hall : startsRule ending 0 (key :: us ++ (t :: more ++ left)) = .ok false := by
    simpa using hlook
  have hagain := startsRule_of_append hus hall
  rw [List.drop_left]
  rwa [List.foldl_cons, hfirst, hdepth] at hagain

/-- Declarations take all that stands before the first `;` or closing brace, unless what is given
back is no declaration. -/
theorem covers_of_look (htokens : s.tokens = key :: (body ++ left))
    (hkey : key.isTerminator = false) (hat : key.isMark '@' = false)
    (hlook : startsRule ending 0 s.tokens = .ok false)
    (hbody : ∀ t ∈ body, t.isTerminator = false) (hleft : ∀ t ∈ left.head?, t.isTerminator = true)
    (hagain : ∀ n, ownLength? body = some n →
      startsRule ending 0 (body.drop n ++ left) = .ok false) :
    Covers ending s (key :: body) := by
  -- what is given back is shorter, and its key is a name
  induction hlength : body.length using Nat.strongRecOn generalizing s key body with
  | ind n ih =>
    rcases takes_or_part htokens hkey hat hlook hbody hleft with
      ⟨-, htakes⟩ | ⟨us, t, more, rfl, hown, hkind, -, htakes⟩
    · exact .last htakes hleft
    · have hname := Token.isTerminator_of_ident hkind
      have hgiven : ∃ u ∈ (t :: more ++ left).head?, u.isTerminator = false := ⟨t, rfl, hname⟩
      have htokens' := htakes.tokens_of_given hgiven
      have hlook' := hagain _ hown
      rw [List.drop_left] at hlook'
      have hmore : ∀ u ∈ more, u.isTerminator = false := by
        intro u hu
        exact hbody u (by simp [hu])
      have hshorter : more.length < n := by
        simp only [List.length_append, List.length_cons] at hlength
        omega
      refine .back htakes hgiven
        (ih _ hshorter htokens' hname (Token.isMark_of_ident hkind '@') ?_ hmore ?_ rfl)
      · rwa [htokens']
      · exact look_again hname (Token.isOpener_of_ident hkind) hmore hlook'

/-- Declarations that go up to a `;` or closing brace outside brackets do not run into a rule. -/
theorem Covers.look_of_stop (h : Covers ending s own) {rest : List Token} {stop : Token}
    (htokens : s.tokens = own ++ stop :: rest) (hdepth : own.foldl depthAfter 0 = 0)
    (hstop : stop.isTerminator = true) : startsRule ending 0 s.tokens = .ok false := by
  have hcondition : inCondition stop = false := by simp [inCondition, hstop]
  obtain ⟨us, w, rest', heq, hle, henclosed, hw⟩ := Token.exists_enclosed hcondition hdepth rest
  have hlength := h.length_le (htokens.trans heq) (Token.foldl_of_enclosed henclosed) hw
  -- so the first `;` or brace outside brackets is the one they go up to
  obtain ⟨rfl, hstops⟩ := List.append_inj heq (Nat.le_antisymm hlength hle)
  cases hstops
  have hbrace : stop.isMark '\x7b' = false := by
    simpa [hstop] using isTerminator_of_not_inCondition hcondition
  rw [htokens, startsRule_enclosed henclosed hcondition, hbrace]

theorem stops_append {after rest : List Token} {stop : Token}
    (hafter : ∀ t ∈ after.head?, t.isTerminator = true) (hstop : stop.isTerminator = true) :
    ∀ t ∈ (after ++ stop :: rest).head?, t.isTerminator = true := by
  cases after with
  | nil => simpa using hstop
  | cons u after => exact hafter

section Enclosed

variable {ts rest : List Token} {stop : Token} (htokens : s.tokens = key :: (ts ++ stop :: rest))
  (hat : key.isMark '@' = false) (henclosed : Token.enclosed 0 (key :: ts) = true)
  (hstop : stop.isTerminator = true)

include henclosed in
theorem isTerminator_of_enclosed : key.isTerminator = false := by
  have hkey : inCondition key = true := by
    simpa using (Bool.and_eq_true_iff.1 henclosed).1
  simp only [inCondition, Bool.not_eq_true', Bool.or_eq_false_iff] at hkey
  exact hkey.2

include htokens henclosed hstop in
theorem look_of_enclosed (ending : Ending) : startsRule ending 0 s.tokens = .ok false := by
  have hcondition : inCondition stop = false := by simp [inCondition, hstop]
  have hbrace := isTerminator_of_not_inCondition hcondition
  rw [htokens, ← List.cons_append, startsRule_enclosed henclosed hcondition]
  simpa [hstop] using hbrace

include htokens hat henclosed hstop

/-- What declarations take up to a `;` or closing brace outside brackets has none inside either, and
what was given back is a declaration again. -/
theorem Covers.inside (h : Covers ending s (key :: ts)) :
    (∀ t ∈ ts, t.isTerminator = false) ∧ ∀ n, ownLength? ts = some n →
      startsRule ending 0 (ts.drop n ++ stop :: rest) = .ok false := by
  have hkey := isTerminator_of_enclosed henclosed
  have hlook := look_of_enclosed htokens henclosed hstop ending
  obtain ⟨body, after, rfl, hbody, hafter⟩ := Declaration.exists_body ts
  have hleft : ∀ t ∈ (after ++ stop :: rest).head?, t.isTerminator = true :=
    stops_append hafter hstop
  have hread := htokens
  rw [List.append_assoc] at hread
  generalize hall : key :: (body ++ after) = all at h
  rcases takes_or_part hread hkey hat hlook hbody hleft with
    ⟨hown, htakes⟩ | ⟨us, t, more, rfl, hown, hkind, -, htakes⟩
  · cases h with
    | last takes _ =>
      obtain ⟨rfl, rfl, -⟩ := takes.unique htakes
      have hnil : after = [] := by simpa using (List.cons.inj hall).2
      rw [hnil, List.append_nil, hown]
      exact ⟨hbody, fun n hn => by cases hn⟩
    | back takes given _ =>
      obtain ⟨-, -, rfl, -⟩ := takes.unique htakes
      exact absurd given (not_given hleft)
  · have hname := Token.isTerminator_of_ident hkind
    cases h with
    | last takes stops =>
      obtain ⟨-, -, rfl, -⟩ := takes.unique htakes
      rw [stops t rfl] at hname
      cases hname
    | @back _ s' _ vs _ own takes given again =>
      obtain ⟨rfl, rfl, rfl, -⟩ := takes.unique htakes
      have htokens' := takes.tokens_of_given given
      obtain rfl : own = t :: more ++ after := by simpa using (List.cons.inj hall).2.symm
      have hdepth' : (t :: more ++ after).foldl depthAfter 0 = 0 := by
        have hclosed := Token.foldl_of_enclosed henclosed
        simpa using Token.foldl_depthAfter_drop hclosed (vs.length + 1)
      have hagain := again.look_of_stop (by simpa using htokens') hdepth' hstop
      have hmore : ∀ u ∈ more, u.isTerminator = false := by
        intro u hu
        exact hbody u (by simp [hu])
      have hlook' := hagain
      rw [htokens'] at hlook'
      have hcovers : Covers ending s' (t :: more) :=
        covers_of_look htokens' hname (Token.isMark_of_ident hkind '@') hagain hmore hleft
          (look_again hname (Token.isOpener_of_ident hkind) hmore hlook')
      have hnil : after = [] := by simpa using again.unique hcovers
      rw [hnil, List.append_nil, hown]
      refine ⟨hbody, fun n hn => ?_⟩
      cases hn
      rwa [List.drop_left, ← List.nil_append (stop :: rest), ← hnil]

/-- Behind a key that opens no bracket, declarations take the tokens before the first `;` or closing
brace. -/
theorem covers_takeWhile (hopener : key.isOpener = false) :
    Covers ending s (key :: ts.takeWhile (!·.isTerminator)) := by
  have hkey := isTerminator_of_enclosed henclosed
  have hlook := look_of_enclosed htokens henclosed hstop ending
  obtain ⟨body, after, rfl, hbody, hafter⟩ := Declaration.exists_body ts
  rw [List.append_assoc] at htokens
  have hagain := hlook
  rw [htokens] at hagain
  rw [(Declaration.split_body hbody hafter).1]
  exact covers_of_look htokens hkey hat hlook hbody (stops_append hafter hstop)
    (look_again hkey hopener hbody hagain)

/-- **Where declarations end.** Let `stop` be the `;` or closing brace that the look ahead finds,
the first one outside brackets. The declaration that is read next, with those read from what it
gives back, takes exactly the tokens before `stop` if and only if there is no other `;` or closing
brace among them, in brackets, and what is given back first is taken for a declaration again. Behind
a key that opens no bracket it always is: there declarations take the tokens before the first `;` or
closing brace, in brackets or not, and no others. -/
theorem covers_iff :
    startsRule ending 0 s.tokens = .ok false ∧
      (Covers ending s (key :: ts) ↔ (∀ t ∈ ts, t.isTerminator = false) ∧
        ∀ n, ownLength? ts = some n →
          startsRule ending 0 (ts.drop n ++ stop :: rest) = .ok false) ∧
      (key.isOpener = false → ∀ own,
        Covers ending s own ↔ own = key :: ts.takeWhile (!·.isTerminator)) := by
  have hkey := isTerminator_of_enclosed henclosed
  have hlook := look_of_enclosed htokens henclosed hstop ending
  refine ⟨hlook, ⟨Covers.inside htokens hat henclosed hstop, fun ⟨hts, hagain⟩ => ?_⟩, ?_⟩
  · exact covers_of_look htokens hkey hat hlook hts (by simpa using hstop) hagain
  · intro hopener own
    have hcovers : Covers ending s (key :: ts.takeWhile (!·.isTerminator)) :=
      covers_takeWhile htokens hat henclosed hstop hopener
    exact ⟨fun h => h.unique hcovers, fun h => h ▸ hcovers⟩

end Enclosed

/-- Tokens of which the last is the first `;` or closing brace outside brackets. -/
theorem exists_stop {tokens : List Token} (hstop : tokens.getLast?.any (·.isTerminator) = true)
    (hkey : tokens.dropLast.head?.any (!·.isMark '@') = true)
    (henclosed : Token.enclosed 0 tokens.dropLast = true) :
    ∃ key ts stop, tokens = key :: (ts ++ [stop]) ∧ tokens.dropLast = key :: ts ∧
      key.isMark '@' = false ∧ Token.enclosed 0 (key :: ts) = true ∧ stop.isTerminator = true := by
  rcases List.eq_nil_or_concat' tokens with rfl | ⟨own, stop, rfl⟩
  · cases hkey
  · rw [List.dropLast_concat] at hkey henclosed ⊢
    rw [List.getLast?_concat, Option.any_some] at hstop
    cases own with
    | nil => cases hkey
    | cons key ts => exact ⟨key, ts, stop, rfl, rfl, by simpa using hkey, henclosed, hstop⟩

/-- Three declarations, two of them without their `;`, and a brace in brackets. -/
def bracedSource : Text := "a: (b \x7b c) d: e f: [g] h;".toList

theorem covers_bracedSource : ∃ key ts stop,
    (Text.tokenize bracedSource).tokens = key :: (ts ++ [stop]) ∧ ts.length = 15 ∧
    Token.enclosed 0 (key :: ts) = true ∧ stop.isTerminator = true ∧
    Covers (.ofSource bracedSource none) { tokens := (Text.tokenize bracedSource).tokens }
      (key :: ts) := by
  obtain ⟨key, ts, stop, htokens, hown, hat, henclosed, hstop⟩ :=
    @exists_stop (Text.tokenize bracedSource).tokens (by decide +kernel) (by decide +kernel)
      (by decide +kernel)
  have hplain : (Text.tokenize bracedSource).tokens.dropLast.head?.any (!·.isOpener) = true ∧
      (Text.tokenize bracedSource).tokens.dropLast.tail.length = 15 ∧
      (Text.tokenize bracedSource).tokens.dropLast.tail.all (!·.isTerminator) = true := by
    decide +kernel
  rw [hown] at hplain
  obtain ⟨hopener, hlength, hinside⟩ := hplain
  have hcovers : Covers (.ofSource bracedSource none)
      { tokens := (Text.tokenize bracedSource).tokens } (key :: ts) ↔
      key :: ts = key :: ts.takeWhile (!·.isTerminator) :=
    (covers_iff htokens hat henclosed hstop).2.2 (by simpa using hopener) _
  refine ⟨key, ts, stop, htokens, hlength, henclosed, hstop, hcovers.2 ?_⟩
  have hall : ts.takeWhile (!·.isTerminator) = ts :=
    List.takeWhile_eq_self_iff.2 (List.all_eq_true.1 hinside)
  rw [hall]

/-- A `;` in brackets. -/
def dividedSource : Text := "a: (b; c);".toList

/-- The look ahead passes over the `;` in brackets, but the declaration ends there: its value is cut
off, and what is behind it is read as another one, malformed. -/
theorem not_covers_dividedSource : ∃ key ts stop,
    (Text.tokenize dividedSource).tokens = key :: (ts ++ [stop]) ∧ ts.length = 6 ∧
    Token.enclosed 0 (key :: ts) = true ∧ stop.isTerminator = true ∧
    startsRule (.ofSource dividedSource none) 0 (Text.tokenize dividedSource).tokens = .ok false ∧
    ¬Covers (.ofSource dividedSource none) { tokens := (Text.tokenize dividedSource).tokens }
      (key :: ts) ∧
    ∃ sheet, Sheet.parse dividedSource = .ok sheet ∧
      sheet.declarations.map (fun d => (d.key.text, Fragment.render d.value, d.isDangling)) =
        [(['a'], "(b".toList, false), (['c'], [')'], true)] := by
  obtain ⟨key, ts, stop, htokens, hown, hat, henclosed, hstop⟩ :=
    @exists_stop (Text.tokenize dividedSource).tokens (by decide +kernel) (by decide +kernel)
      (by decide +kernel)
  have hdivided : (Text.tokenize dividedSource).tokens.dropLast.tail.length = 6 ∧
      (Text.tokenize dividedSource).tokens.dropLast.tail.any (·.isTerminator) = true := by
    decide +kernel
  have hread : (fun sheet : Sheet => sheet.declarations.map fun d =>
      (d.key.text, Fragment.render d.value, d.isDangling)) <$> Sheet.parse dividedSource =
      .ok [(['a'], "(b".toList, false), (['c'], [')'], true)] := by decide +kernel
  rw [hown] at hdivided
  obtain ⟨sheet, hparse, hdeclarations⟩ := map_eq_ok.1 hread
  refine ⟨key, ts, stop, htokens, hdivided.1, henclosed, hstop, by decide +kernel,
    fun h => ?_, sheet, hparse, hdeclarations.symm⟩
  obtain ⟨t, ht, hterminator⟩ := List.any_eq_true.1 hdivided.2
  rw [(Covers.inside htokens hat henclosed hstop h).1 t ht] at hterminator
  cases hterminator

end Sheet

end ScopedCss
