/-
Reading a sheet always makes progress and fails only as it declares: no step of the checked reader
slips (`Checked.step_eq`), each leaves fewer tokens than it found, and so every source comes to a
sheet, to the lexer's failure or to a fault of the grammar (`Sheet.parse_progress`).
-/
import Mathlib.Logic.Relation
import ScopedCss.Proofs.Sheet.Checked
import ScopedCss.Proofs.Token.Places

namespace ScopedCss

namespace Checked

open Sheet (Ending State Head)

/-! ## No step slips -/

theorem flush_eq (run : List Declaration) : flush run = .ok (Item.bareRule run) := by
  cases run <;> rfl

theorem contents_eq (run : List Declaration) (items : List Item) :
    contents run items = .ok (Item.contents run.reverse items) := by
  induction items generalizing run with
  | nil => simp [contents, flush_eq, Item.contents]
  | cons item items ih =>
    cases item with
    | declaration d => simp [contents, ih, Item.contents]
    | content c => simp [contents, flush_eq, ih, Item.contents]

theorem close_eq (items : List Item) (head : Head) : close items head = .ok (head.close items) := by
  cases head with
  | rule selectors location => rfl
  | atRule head => simp [close, contents_eq, Head.close]

theorem condition_eq (ending : Ending) (sign name : Token) (ts : List Token) :
    condition ending sign name ts =
      match ts.dropWhile Sheet.inCondition with
      | [] =>
        .error (.fault (ending.failure.getD (.grammar (.endInAtRule name.text) sign.location)))
      | t :: rest =>
        if t.isMark '\x7b' then .ok (ts.takeWhile Sheet.inCondition, t :: rest)
        else fault (.missingBlock name.text) t.location := by
  induction ts with
  | nil => rfl
  | cons t ts ih =>
    rw [condition, ih]
    by_cases hbrace : t.isMark '\x7b' = true
    · simp [hbrace, Sheet.inCondition]
    · by_cases hterm : t.isTerminator = true
      · simp [hbrace, hterm, Sheet.inCondition]
      · have hin : Sheet.inCondition t = true := by simp [Sheet.inCondition, hbrace, hterm]
        simp only [hbrace, hterm, hin, List.dropWhile_cons, List.takeWhile_cons, if_true]
        cases ts.dropWhile Sheet.inCondition with
        | nil => rfl
        | cons u rest => by_cases hu : u.isMark '\x7b' = true <;> simp [hu]

/-- What a step comes to, as an outcome or a fault. -/
def outcome : Sheet.Step → Checked Outcome
  | .next s => .ok (.next s)
  | .done sheet => .ok (.done sheet)
  | .failed e => .error (.fault e)

@[simp] theorem peek_cons (ending : Ending) (t : Token) (ts : List Token) :
    peek ending (t :: ts) 0 = .ok (some t) := rfl

theorem peek_nil (ending : Ending) (n : Nat) :
    peek ending [] n = match ending.failure with
      | some e => .error (.fault e)
      | none => .ok none := by
  unfold peek
  cases ending.failure <;> rfl

theorem atRule_eq {ending : Ending} {s : State} {sign : Token} {ts : List Token}
    (h : s.tokens = sign :: ts) :
    atRule ending s = outcome (Sheet.stepAtRule ending s sign ts) := by
  simp only [atRule, h, next, ok_bind]
  cases ts with
  | nil =>
    rw [peek_nil]
    simp only [Sheet.stepAtRule]
    cases ending.failure <;> rfl
  | cons name ts =>
    simp only [peek_cons, ok_bind, Sheet.stepAtRule, List.tail_cons, condition_eq]
    split
    · rfl
    · cases ts.dropWhile Sheet.inCondition with
      | nil => rfl
      | cons t rest =>
        by_cases hbrace : t.isMark '\x7b' = true
        · simp [hbrace, outcome]
        · simp [hbrace, outcome, fault]

theorem rule_eq {ending : Ending} {s : State} {t : Token} {ts : List Token}
    (h : s.tokens = t :: ts) : rule ending s = outcome (Sheet.stepRule ending s t ts) := by
  simp only [rule, Sheet.stepRule, h, List.head?_cons, expect_some, ok_bind, selectors_eq]
  cases hsplit : Selector.Groups.split ending.inSelector 0 false (t :: ts) with
  | error e => rfl
  | ok g =>
    obtain ⟨hbrace, -⟩ := Selector.Groups.split_spec hsplit
    cases hread : g.selectors with
    | error e => simp [hread, outcome]
    | ok selectors => simp [hread, next, require, hbrace, outcome]

theorem runsIntoRule_eq (ending : Ending) (t : Token) (ts : List Token) :
    runsIntoRule ending (t :: ts) =
      match ending.beforeSecond ts with
      | some e => .error (.fault e)
      | none => .ok (Sheet.runsIntoRule (t :: ts)) := by
  match ts with
  | [] =>
    simp only [runsIntoRule, peek, Ending.beforeSecond, Sheet.runsIntoRule]
    cases ending.failure <;> simp
  | [colon] =>
    simp only [runsIntoRule, peek, Ending.beforeSecond, Sheet.runsIntoRule]
    cases ending.failure <;> simp
  | colon :: value :: rest =>
    simp [runsIntoRule, peek, Ending.beforeSecond, Sheet.runsIntoRule, Bool.and_assoc]

theorem step_eq (ending : Ending) {s : State} (h : ∀ t ∈ s.tokens, t.text ≠ []) :
    step ending s = outcome (Sheet.step ending s) := by
  unfold step Sheet.step
  cases htokens : s.tokens with
  | nil =>
    rw [peek_nil]
    cases ending.failure with
    | some e => rfl
    | none =>
      cases hblocks : s.blocks with
      | nil => simp [contents_eq, outcome]
      | cons b blocks => simp [outcome, fault]
  | cons t ts =>
    simp only [peek_cons, ok_bind]
    split
    · cases hblocks : s.blocks with
      | nil => rfl
      | cons b blocks => simp [close_eq, outcome]
    rename_i hbrace
    split
    · rfl
    rename_i hsemicolon
    split
    · exact atRule_eq htokens
    cases hstarts : Sheet.startsRule ending 0 (t :: ts) with
    | error e => rfl
    | ok starts =>
      cases starts with
      | false =>
        have hterm : t.isTerminator = false := by simp [Token.isTerminator, hbrace, hsemicolon]
        have htext : t.text ≠ [] := h t (htokens ▸ List.mem_cons_self)
        simp [readDeclaration_eq hstarts hterm htext, outcome]
      | true =>
        simp only [sure_ok, ok_bind, Bool.not_true, Bool.false_eq_true, if_false, runsIntoRule_eq]
        cases hsecond : ending.beforeSecond ts with
        | some e => rfl
        | none =>
          by_cases hruns : Sheet.runsIntoRule (t :: ts) = true
          · simp [hruns, readUnterminated_eq hstarts hruns, outcome]
          · simp [hruns, rule_eq htokens]

/-- Every step leaves fewer tokens, so the check for progress does not slip either. -/
theorem run_eq (ending : Ending) {s : State} (h : ∀ t ∈ s.tokens, t.text ≠ []) :
    run ending s = sure (Sheet.run ending s).result := by
  induction s using Sheet.run.induct ending with
  | case1 s s' hstep _ ih =>
    have hsuffix := (Sheet.moves_of_step hstep).suffix
    rw [Sheet.run_of_next hstep, run, step_eq ending h, hstep]
    simp only [outcome, Sheet.tokens_lt_of_step hstep, if_true]
    exact ih fun t ht => h t (hsuffix.subset ht)
  | case2 s sheet hstep =>
    rw [Sheet.run_of_done hstep, run, step_eq ending h, hstep]
    rfl
  | case3 s e hstep =>
    rw [Sheet.run_of_failed hstep, run, step_eq ending h, hstep]
    rfl

theorem parse_eq (source : Text) : parse source = sure (Sheet.parse source) :=
  run_eq _ (Lexer.text_ne_nil _ rfl)

end Checked

namespace Sheet

/-- Some number of steps leads from one state to another. -/
def Reaches (ending : Ending) : State → State → Prop :=
  Relation.ReflTransGen fun s s' => step ending s = .next s'

/-- A step takes tokens from the front and leaves the rest as it was, fewer than there were. -/
theorem shrinks_of_step {ending : Ending} {s s' : State} (h : step ending s = .next s') :
    s'.tokens <:+ s.tokens ∧ s'.tokens.length < s.tokens.length :=
  ⟨(moves_of_step h).suffix, tokens_lt_of_step h⟩

/-- A step fails with the lexer's failure or with a fault of the grammar. -/
theorem Fails.kind {ending : Ending} {s : State} {e : Error} (h : Fails ending s e) :
    ending.failure = some e ∨ ∃ fault place, e = .grammar fault place := by
  cases h with
  | lexical failure => exact .inl failure
  | token found =>
    obtain ⟨fault, t, -, rfl⟩ := found
    exact .inr ⟨fault, t.location, rfl⟩
  | block opened => exact .inr ⟨_, _, rfl⟩
  | ending => exact .inr ⟨_, _, rfl⟩

/-- A source whose tokens can all be read fails only with a fault of the grammar. -/
theorem grammar_of_parse {source : Text} {e : Error}
    (htokens : (Text.tokenize source).failure = none) (h : parse source = .error e) :
    ∃ fault place, e = .grammar fault place := by
  obtain ⟨last, -, hend⟩ := @exists_last (fun _ => True)
    (.ofSource source (Text.tokenize source).failure) { tokens := (Text.tokenize source).tokens }
    (fun _ _ _ h => h) trivial
  rcases hend with ⟨sheet, -, hrun⟩ | ⟨e', hfailed, hrun⟩
  · cases h.symm.trans hrun
  · cases h.symm.trans hrun
    refine (step_eq_failed hfailed).kind.resolve_left fun hfailure => ?_
    cases htokens.symm.trans hfailure

/-- Reading a source makes progress and fails only as it declares. The checked reader, which slips
where something that reading relies on is missing or a step does not shrink the tokens, does what
the reader does; each step leaves a proper end of its tokens; and the source comes to a sheet, all
its tokens read, or to the lexer's failure, or to a fault of the grammar.

This takes for granted that there is room for the open blocks, however deep they nest: a reader that
keeps them on a call stack of bounded size runs out of it on sources that nest deeper, and no fault of
the grammar stands for that. -/
theorem parse_progress (source : Text) :
    Checked.parse source = Checked.sure (parse source) ∧
      (∀ s s', step (.ofSource source (Text.tokenize source).failure) s = .next s' →
        s'.tokens <:+ s.tokens ∧ s'.tokens.length < s.tokens.length) ∧
      ((∃ sheet, parse source = .ok sheet ∧ (Text.tokenize source).failure = none ∧
          ∃ last, Reaches (.ofSource source none) { tokens := (Text.tokenize source).tokens } last ∧
            last.tokens = [] ∧ step (.ofSource source none) last = .done sheet) ∨
        (∃ fault place, parse source = .error (.lexical fault place) ∧
          (Text.tokenize source).failure = some (.lexical fault place)) ∨
        ∃ fault place, parse source = .error (.grammar fault place)) := by
  refine ⟨Checked.parse_eq source, fun s s' => shrinks_of_step, ?_⟩
  obtain ⟨last, hreaches, hend⟩ := exists_last
    (P := Reaches (.ofSource source (Text.tokenize source).failure)
      { tokens := (Text.tokenize source).tokens })
    (fun _ _ hstep hreaches => hreaches.tail hstep) .refl
  rcases hend with ⟨sheet, hdone, hrun⟩ | ⟨e, hfailed, hrun⟩
  · obtain ⟨htokens, -, hnone, -⟩ := step_eq_done hdone
    have hfailure : (Text.tokenize source).failure = none := hnone
    rw [hfailure] at hreaches hdone
    exact .inl ⟨sheet, hrun, hfailure, last, hreaches, htokens, hdone⟩
  · rcases (step_eq_failed hfailed).kind with hfailure | ⟨fault, place, rfl⟩
    · obtain ⟨fault, place, rfl, -⟩ := (Lexer.covers_tokens _ rfl (.start source)).2 e hfailure
      exact .inr (.inl ⟨fault, place, hrun, hfailure⟩)
    · exact .inr (.inr ⟨fault, place, hrun⟩)

end Sheet

end ScopedCss
