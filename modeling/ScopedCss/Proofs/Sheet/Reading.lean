/-
Reading a sheet, step by step: `Moves` lists what a step can do, and `exists_of_run` carries
whatever every move keeps through to the sheet that is read.

With it: a sheet that was read is well nested (`Sheet.wellNested_of_parse`).
-/
import ScopedCss.Proofs.Selector.Reading
import ScopedCss.Sheet.Parser

namespace ScopedCss

namespace Sheet

/-- The moves of the reader, one constructor for each kind of item or brace. -/
inductive Moves (ending : Ending) : State → State → Prop
  | close {s : State} {t : Token} {ts : List Token} {b : Block} {blocks : List Block}
      (tokens : s.tokens = t :: ts) (brace : t.isMark '\x7d' = true)
      (opened : s.blocks = b :: blocks) :
      Moves ending s { s with
        tokens := ts
        items := .content (b.head.close s.items.reverse) :: b.before
        blocks := blocks }
  | skip {s : State} {t : Token} {ts : List Token} (tokens : s.tokens = t :: ts)
      (mark : t.isMark ';' = true) : Moves ending s { s with tokens := ts }
  | atRule {s : State} {sign name brace : Token} {ts rest : List Token}
      (tokens : s.tokens = sign :: name :: ts) (mark : sign.isMark '@' = true)
      (named : name.kind = .ident ∧ name.spaced = false)
      (body : ts.dropWhile inCondition = brace :: rest) (opens : brace.isMark '\x7b' = true) :
      Moves ending s (s.openBlock
        (.atRule
          { kind := .ofName name.text
            name := name.text
            condition := Fragment.ofTokens (ts.takeWhile inCondition)
            location := some (sign.span brace) })
        brace.location rest)
  | declaration {s : State} {t : Token} {ts : List Token} (tokens : s.tokens = t :: ts)
      (ends : startsRule ending 0 (t :: ts) = .ok false) :
      Moves ending s (s.addDeclaration (Declaration.readDeclaration t ts))
  | unterminated {s : State} {t : Token} {ts : List Token} (tokens : s.tokens = t :: ts)
      (opens : startsRule ending 0 (t :: ts) = .ok true) (runs : runsIntoRule (t :: ts) = true) :
      Moves ending s (s.addDeclaration (Declaration.readUnterminated t ts))
  | rule {s : State} {t : Token} {ts : List Token} {g : Selector.Groups}
      {selectors : List Selector} (tokens : s.tokens = t :: ts)
      (opens : startsRule ending 0 (t :: ts) = .ok true) (runs : runsIntoRule (t :: ts) = false)
      (split : Selector.Groups.split ending.inSelector 0 false (t :: ts) = .ok g)
      (read : g.selectors = .ok selectors) (plain : t.isMark '@' = false) :
      Moves ending s (s.openBlock (.rule selectors t.location) g.brace.location g.rest)

theorem moves_of_stepAtRule {ending : Ending} {s s' : State} {sign : Token} {ts : List Token}
    (htokens : s.tokens = sign :: ts) (hmark : sign.isMark '@' = true)
    (h : stepAtRule ending s sign ts = .next s') : Moves ending s s' := by
  unfold stepAtRule at h
  split at h
  · cases h
  · rename_i name ts
    split at h
    · cases h
    · rename_i hname
      split at h
      · cases h
      · rename_i brace rest hbody
        split at h
        · rename_i hopens
          cases h
          simp only [ne_eq, Bool.or_eq_true, decide_eq_true_eq, not_or, Decidable.not_not,
            Bool.not_eq_true] at hname
          exact .atRule htokens hmark hname hbody hopens
        · cases h

theorem moves_of_step {ending : Ending} {s s' : State} (h : step ending s = .next s') :
    Moves ending s s' := by
  unfold step at h
  split at h
  · split at h <;> cases h
  · rename_i t ts htokens
    split at h
    · rename_i hbrace
      split at h
      · cases h
      · rename_i b blocks hblocks
        cases h
        exact .close htokens hbrace hblocks
    split at h
    · rename_i hmark
      cases h
      exact .skip htokens hmark
    split at h
    · rename_i hmark
      exact moves_of_stepAtRule htokens hmark h
    rename_i hplain
    split at h
    · cases h
    · rename_i hends
      cases h
      exact .declaration htokens hends
    · rename_i hopens
      split at h
      · cases h
      · split at h
        · rename_i hruns
          cases h
          exact .unterminated htokens hopens hruns
        · rename_i hruns
          unfold stepRule at h
          split at h
          · cases h
          · rename_i g hsplit
            split at h
            · cases h
            · rename_i selectors hread
              cases h
              exact .rule htokens hopens (Bool.eq_false_iff.2 hruns) hsplit hread
                (Bool.eq_false_iff.2 hplain)

/-- The reader is done once all tokens are read and all blocks are closed. -/
theorem step_eq_done {ending : Ending} {s : State} {sheet : Sheet}
    (h : step ending s = .done sheet) :
    s.tokens = [] ∧ s.blocks = [] ∧ ending.failure = none ∧
      sheet = Item.contents [] s.items.reverse := by
  unfold step at h
  split at h
  · rename_i htokens
    split at h
    · cases h
    · cases h
    · rename_i hfailure hblocks
      cases h
      exact ⟨htokens, hblocks, hfailure, rfl⟩
  · -- with a token left every step moves on or fails
    unfold stepAtRule stepRule at h
    repeat' split at h
    all_goals cases h

section Equations

variable {ending : Ending} {s s' : State} {sheet : Sheet} {e : Error}

theorem run_of_next (h : step ending s = .next s') : run ending s = run ending s' := by
  rw [run]
  split <;> simp_all

theorem run_of_done (h : step ending s = .done sheet) :
    run ending s = ⟨s.recovered.reverse, .ok sheet⟩ := by
  rw [run]
  split <;> simp_all

theorem run_of_failed (h : step ending s = .failed e) :
    run ending s = ⟨s.recovered.reverse, .error e⟩ := by
  rw [run]
  split <;> simp_all

end Equations

/-- What holds at the start and is kept by every move holds where reading ends. -/
theorem exists_of_run {P : State → Prop} {ending : Ending} {s : State} {sheet : Sheet}
    (keeps : ∀ s s', Moves ending s s' → P s → P s') (hs : P s)
    (h : (run ending s).result = .ok sheet) :
    ∃ last : State, P last ∧ last.tokens = [] ∧ last.blocks = [] ∧ ending.failure = none ∧
      sheet = Item.contents [] last.items.reverse := by
  induction s using run.induct ending with
  | case1 s s' hstep _ ih =>
    rw [run_of_next hstep] at h
    exact ih (keeps s s' (moves_of_step hstep) hs) h
  | case2 s sheet' hstep =>
    obtain ⟨htokens, hblocks, hfailure, rfl⟩ := step_eq_done hstep
    rw [run_of_done hstep] at h
    cases h
    exact ⟨s, hs, htokens, hblocks, hfailure, rfl⟩
  | case3 s e hstep =>
    rw [run_of_failed hstep] at h
    cases h

end Sheet

mutual

def Content.WellNested : Content → Prop
  | .rule selectors _ nested _ =>
    (∀ s ∈ selectors, s.fragments ≠ []) ∧ (selectors = [] → nested = []) ∧
      Sheet.WellNested nested
  | .atRule _ body => Sheet.WellNested body

/-- No selector is empty, and a rule without selectors holds nothing but declarations. -/
def Sheet.WellNested : Sheet → Prop
  | [] => True
  | c :: cs => c.WellNested ∧ Sheet.WellNested cs

end

theorem Sheet.wellNested_append {s t : Sheet} :
    Sheet.WellNested (s ++ t) ↔ Sheet.WellNested s ∧ Sheet.WellNested t := by
  induction s with
  | nil => simp [Sheet.WellNested]
  | cons c s ih => simp [Sheet.WellNested, ih, and_assoc]

theorem Sheet.wellNested_iff {s : Sheet} : Sheet.WellNested s ↔ ∀ c ∈ s, c.WellNested := by
  induction s with
  | nil => simp [Sheet.WellNested]
  | cons c s ih => simp [Sheet.WellNested, ih]

def Item.WellNested : Item → Prop
  | declaration _ => True
  | content c => c.WellNested

theorem Item.wellNested_bareRule (ds : List Declaration) : Sheet.WellNested (bareRule ds) := by
  cases ds <;> simp [bareRule, Sheet.WellNested, Content.WellNested]

theorem Item.wellNested_contents {run : List Declaration} {items : List Item}
    (h : ∀ i ∈ items, i.WellNested) : Sheet.WellNested (contents run items) := by
  induction items generalizing run with
  | nil => exact wellNested_bareRule _
  | cons i items ih =>
    obtain ⟨hi, hitems⟩ := List.forall_mem_cons.1 h
    cases i with
    | declaration d => exact ih hitems
    | content c =>
      exact Sheet.wellNested_append.2 ⟨wellNested_bareRule _, hi, ih hitems⟩

namespace Sheet

def Head.WellNested : Head → Prop
  | rule selectors _ => selectors ≠ [] ∧ ∀ s ∈ selectors, s.fragments ≠ []
  | atRule _ => True

theorem Head.wellNested_close {head : Head} {items : List Item} (hh : head.WellNested)
    (hi : ∀ i ∈ items, i.WellNested) : (head.close items).WellNested := by
  cases head with
  | atRule a => exact Item.wellNested_contents hi
  | rule selectors location =>
    refine ⟨hh.2, fun hnil => absurd hnil hh.1, wellNested_iff.2 ?_⟩
    intro c hc
    obtain ⟨i, hmem, hcontent⟩ := List.mem_filterMap.1 hc
    cases i with
    | declaration d => cases hcontent
    | content c' =>
      cases hcontent
      exact hi _ hmem

/-- All that was read so far is well nested, in the open blocks too. -/
structure State.WellNested (s : State) : Prop where
  items : ∀ i ∈ s.items, i.WellNested
  blocks : ∀ b ∈ s.blocks, b.head.WellNested ∧ ∀ i ∈ b.before, i.WellNested

namespace State.WellNested

variable {s s' : State}

theorem start (tokens : List Token) : State.WellNested { tokens := tokens } :=
  ⟨List.forall_mem_nil _, List.forall_mem_nil _⟩

theorem openBlock (hs : s.WellNested) {head : Head} (hh : head.WellNested) (opening : Location)
    (rest : List Token) : (s.openBlock head opening rest).WellNested where
  items := List.forall_mem_nil _
  blocks := List.forall_mem_cons.2 ⟨⟨hh, hs.items⟩, hs.blocks⟩

theorem addDeclaration (hs : s.WellNested) (read : Declaration × List Token) :
    (s.addDeclaration read).WellNested where
  items := List.forall_mem_cons.2 ⟨trivial, hs.items⟩
  blocks := hs.blocks

theorem moves {ending : Ending} (h : Moves ending s s') (hs : s.WellNested) : s'.WellNested := by
  cases h with
  | close htokens hbrace hblocks =>
    have hall := hs.blocks
    rw [hblocks] at hall
    obtain ⟨⟨hhead, hbefore⟩, hrest⟩ := List.forall_mem_cons.1 hall
    have hclosed := Head.wellNested_close hhead fun i hi => hs.items i (List.mem_reverse.1 hi)
    exact ⟨List.forall_mem_cons.2 ⟨hclosed, hbefore⟩, hrest⟩
  | skip => exact ⟨hs.items, hs.blocks⟩
  | atRule =>
    refine hs.openBlock ?_ _ _
    trivial
  | declaration => exact hs.addDeclaration _
  | unterminated => exact hs.addDeclaration _
  | rule htokens hopens hruns hsplit hread =>
    refine hs.openBlock ?_ _ _
    exact Selector.Groups.fragments_ne_nil hsplit hread

end State.WellNested

/-- A sheet that was read is well nested. -/
theorem wellNested_of_parse {source : Text} {sheet : Sheet} (h : Sheet.parse source = .ok sheet) :
    Sheet.WellNested sheet := by
  obtain ⟨last, hlast, -, -, -, rfl⟩ :=
    exists_of_run (fun _ _ => State.WellNested.moves) (State.WellNested.start _) h
  exact Item.wellNested_contents fun i hi => hlast.items i (List.mem_reverse.1 hi)

end Sheet

end ScopedCss
