/-
Reading a sheet does not look at places. If all tokens are moved to one place, every step comes to
what it came to before, moved to that place (`Sheet.step_movedTo`), and so does reading as a whole
(`Sheet.run_movedTo`). Nor does it look at white space in front of the first token
(`Sheet.step_flushLeft`).
-/
import ScopedCss.Proofs.Selector.Relocation
import ScopedCss.Proofs.Sheet.Reading

namespace ScopedCss

variable (place : Location)

/-! ### Moving what is read -/

def Declaration.movedTo (d : Declaration) : Declaration :=
  { d with
    key := d.key.movedTo place
    value := d.value.map (·.movedTo place)
    location := d.location.map fun _ => place }

def AtRule.movedTo (a : AtRule) : AtRule :=
  { a with
    condition := a.condition.map (·.movedTo place)
    location := a.location.map fun _ => place }

mutual

/-- The same item with all its places moved to one. -/
def Content.movedTo : Content → Content
  | .rule selectors declarations nested location =>
    .rule (selectors.map (·.movedTo place)) (declarations.map (·.movedTo place))
      (Sheet.movedTo nested) (location.map fun _ => place)
  | .atRule head body => .atRule (head.movedTo place) (Sheet.movedTo body)

/-- The same sheet with all its places moved to one. -/
def Sheet.movedTo : Sheet → Sheet
  | [] => []
  | c :: cs => c.movedTo :: Sheet.movedTo cs

end

def Item.movedTo : Item → Item
  | .declaration d => .declaration (d.movedTo place)
  | .content c => .content (c.movedTo place)

namespace Sheet

def Head.movedTo : Head → Head
  | .rule selectors _ => .rule (selectors.map (·.movedTo place)) place
  | .atRule head => .atRule (head.movedTo place)

def Block.movedTo (b : Block) : Block :=
  ⟨b.head.movedTo place, place, b.before.map (·.movedTo place)⟩

def State.movedTo (s : State) : State :=
  { tokens := s.tokens.map (·.movedTo place)
    items := s.items.map (·.movedTo place)
    blocks := s.blocks.map (·.movedTo place)
    recovered := s.recovered.map (·.movedTo place) }

def Step.movedTo : Step → Step
  | .next s => .next (s.movedTo place)
  | .done sheet => .done (Sheet.movedTo place sheet)
  | .failed e => .failed (e.movedTo place)

def Ending.movedTo (e : Ending) : Ending := ⟨e.failure.map (·.movedTo place), place⟩

end Sheet

/-! ### Fragments and declarations -/

namespace Fragment

theorem merge_movedTo (fs : List Fragment) :
    merge (fs.map (·.movedTo place)) = (merge fs).map (·.movedTo place) := by
  induction fs with
  | nil => rfl
  | cons f fs ih =>
    cases f with
    | literal a =>
      simp only [List.map_cons, movedTo_literal, merge, ih]
      cases merge fs with
      | nil => rfl
      | cons g gs => cases g <;> rfl
    | placeholder p => exact congrArg (List.cons _) ih
    | marker => exact congrArg (List.cons _) ih
    | combinator c => exact congrArg (List.cons _) ih

theorem movedTo_eq_literal (f : Fragment) (t : Text) :
    f.movedTo place = literal t ↔ f = literal t := by
  cases f <;> simp [movedTo]

theorem ofToken_movedTo (t : Token) : ofToken (t.movedTo place) = (ofToken t).movedTo place := by
  simp only [ofToken, Token.kind_movedTo]
  split <;> simp

theorem trailing_movedTo (t : Token) :
    trailing (t.movedTo place) = (trailing t).map (·.movedTo place) := by
  simp only [trailing, Token.spaced_movedTo, ofToken_movedTo]
  split <;> rfl

theorem ofTokens_movedTo (ts : List Token) :
    ofTokens (ts.map (·.movedTo place)) = (ofTokens ts).map (·.movedTo place) := by
  cases ts with
  | nil => rfl
  | cons t ts =>
    have hpieces : (ts.map (·.movedTo place)).flatMap trailing =
        (ts.flatMap trailing).map (·.movedTo place) := by
      rw [List.flatMap_map, List.map_flatMap]
      exact congrArg (ts.flatMap ·) (funext (trailing_movedTo place))
    simp only [List.map_cons, ofTokens, hpieces, ofToken_movedTo, ← merge_movedTo]
    rw [← List.map_cons, List.filter_map]
    refine congrArg (fun fs => merge (fs.map (movedTo place))) (List.filter_congr fun f _ => ?_)
    exact decide_eq_decide.2 (not_congr (movedTo_eq_literal place f []))

end Fragment

namespace Declaration

theorem depthAfter_movedTo (depth : Nat) (t : Token) :
    depthAfter depth (t.movedTo place) = depthAfter depth t := by
  simp [depthAfter]

theorem propertyIndex_movedTo (depth : Nat) (ts : List Token) :
    propertyIndex depth (ts.map (·.movedTo place)) = propertyIndex depth ts := by
  induction ts generalizing depth with
  | nil => rfl
  | cons t ts ih =>
    cases ts <;> simp_all [propertyIndex, depthAfter_movedTo]

theorem nextProperty_movedTo (ts : List Token) :
    nextProperty (ts.map (·.movedTo place)) = nextProperty ts := by
  cases ts <;> simp [nextProperty, depthAfter_movedTo, propertyIndex_movedTo]

theorem placeOf_movedTo (key : Token) (body : List Token) :
    placeOf (key.movedTo place) (body.map (·.movedTo place)) = place := by
  rw [placeOf, List.getLast?_map]
  cases body.getLast? <;> rfl

theorem dangle_movedTo (key : Token) (body : List Token) (reason : Text) :
    dangle (key.movedTo place) (body.map (·.movedTo place)) reason =
      (dangle key body reason).movedTo place := by
  cases body with
  | nil => rfl
  | cons t ts =>
    have hplace := placeOf_movedTo place key (t :: ts)
    rw [List.map_cons] at hplace
    simp only [List.map_cons, dangle, hplace, Token.isMark_movedTo, Token.text_movedTo, movedTo,
      Option.map_some, Fragment.movedTo_literal, ← Fragment.ofTokens_movedTo]
    split <;> rfl

section Messages

variable (key : Token)

theorem missingSemicolon_movedTo :
    missingSemicolon (key.movedTo place) = missingSemicolon key := by
  unfold missingSemicolon
  rw [Token.text_movedTo]

theorem missingPropertyName_movedTo :
    missingPropertyName (key.movedTo place) = missingPropertyName key := by
  unfold missingPropertyName
  rw [Token.text_movedTo]

theorem missingColon_movedTo : missingColon (key.movedTo place) = missingColon key := by
  unfold missingColon
  rw [Token.text_movedTo]

theorem emptyValue_movedTo : emptyValue (key.movedTo place) = emptyValue key := by
  unfold emptyValue
  rw [Token.text_movedTo]

end Messages

theorem ofTokens_movedTo (key : Token) (body : List Token) :
    ofTokens (key.movedTo place) (body.map (·.movedTo place)) =
      (ofTokens key body).movedTo place := by
  have hdangle := dangle_movedTo place key body
  have hplace := placeOf_movedTo place key body
  unfold ofTokens
  simp only [Token.kind_movedTo, missingPropertyName_movedTo, missingColon_movedTo,
    emptyValue_movedTo, hdangle, hplace]
  split
  · rfl
  cases body with
  | nil => rfl
  | cons colon value =>
    simp only [List.map_cons, Token.isMark_movedTo, List.isEmpty_map]
    split
    · rfl
    split
    · rfl
    · simp only [movedTo, Fragment.ofToken_movedTo, Fragment.ofTokens_movedTo, Option.map_some]

theorem ownLength?_movedTo (ts : List Token) :
    ownLength? (ts.map (·.movedTo place)) = ownLength? ts := by
  cases ts <;> simp [ownLength?, nextProperty_movedTo]

theorem dropSemicolon_movedTo (ts : List Token) :
    dropSemicolon (ts.map (·.movedTo place)) = (dropSemicolon ts).map (·.movedTo place) := by
  cases ts with
  | nil => rfl
  | cons t ts =>
    simp only [List.map_cons, dropSemicolon, Token.isMark_movedTo]
    split <;> rfl

theorem readDeclaration_movedTo (key : Token) (ts : List Token) :
    readDeclaration (key.movedTo place) (ts.map (·.movedTo place)) =
      (readDeclaration key ts).map (·.movedTo place) (List.map (·.movedTo place)) := by
  simp only [readDeclaration, List.takeWhile_map, List.dropWhile_map, Function.comp_def,
    Token.isTerminator_movedTo, ownLength?_movedTo, missingSemicolon_movedTo]
  cases ownLength? (ts.takeWhile (!·.isTerminator)) with
  | none => simp only [ofTokens_movedTo, dropSemicolon_movedTo, Prod.map_apply]
  | some n =>
    simp only [← List.map_take, ← List.map_drop, dangle_movedTo, Prod.map_apply, List.map_append]

theorem beforeBrace_movedTo (depth : Nat) (ts : List Token) :
    beforeBrace depth (ts.map (·.movedTo place)) =
      (beforeBrace depth ts).map (Prod.map (·.movedTo place) id) := by
  induction ts generalizing depth with
  | nil => rfl
  | cons t ts ih =>
    simp only [List.map_cons, beforeBrace, Token.isMark_movedTo, Token.isCloser_movedTo,
      depthAfter_movedTo, ih]
    split <;> rfl

theorem compoundStart_movedTo (ts : List (Token × Nat)) :
    compoundStart (ts.map (Prod.map (·.movedTo place) id)) = compoundStart ts := by
  simp [compoundStart, List.findIdx_map, Option.any_map, Function.comp_def]

theorem backOverCombinators_movedTo (ts : List Token) (n : Nat) :
    backOverCombinators (ts.map (·.movedTo place)) n = backOverCombinators ts n := by
  induction n with
  | zero => rfl
  | succ n ih => simp [backOverCombinators, ih, Option.any_map]

theorem unterminatedLength_movedTo (ts : List (Token × Nat)) :
    unterminatedLength (ts.map (Prod.map (·.movedTo place) id)) = unterminatedLength ts := by
  have htokens : (ts.map (Prod.map (Token.movedTo place) id)).map (·.1) =
      (ts.map (·.1)).map (Token.movedTo place) := by
    simp
  simp only [unterminatedLength, htokens, compoundStart_movedTo, backOverCombinators_movedTo,
    ← List.map_take, ← List.map_drop, nextProperty_movedTo]

theorem readUnterminated_movedTo (key : Token) (ts : List Token) :
    readUnterminated (key.movedTo place) (ts.map (·.movedTo place)) =
      (readUnterminated key ts).map (·.movedTo place) (List.map (·.movedTo place)) := by
  simp only [readUnterminated, beforeBrace_movedTo, unterminatedLength_movedTo,
    missingSemicolon_movedTo, ← List.map_take, ← List.map_drop, dangle_movedTo, Prod.map_apply]

theorem isDangling_movedTo (d : Declaration) : (d.movedTo place).isDangling = d.isDangling := by
  cases d
  rfl

end Declaration

/-! ### Items and blocks -/

theorem Sheet.movedTo_eq_map (s : Sheet) : s.movedTo place = s.map (·.movedTo place) := by
  induction s with
  | nil => rfl
  | cons c s ih => rw [Sheet.movedTo, ih, List.map_cons]

namespace Item

@[simp] theorem movedTo_declaration (d : Declaration) :
    (declaration d).movedTo place = declaration (d.movedTo place) := rfl

@[simp] theorem movedTo_content (c : Content) :
    (content c).movedTo place = content (c.movedTo place) := rfl

theorem bareRule_movedTo (ds : List Declaration) :
    bareRule (ds.map (·.movedTo place)) = Sheet.movedTo place (bareRule ds) := by
  cases ds <;> rfl

theorem contents_movedTo (run : List Declaration) (items : List Item) :
    contents (run.map (·.movedTo place)) (items.map (·.movedTo place)) =
      Sheet.movedTo place (contents run items) := by
  induction items generalizing run with
  | nil => rw [List.map_nil, contents, contents, ← List.map_reverse, bareRule_movedTo]
  | cons item items ih =>
    cases item with
    | declaration d => exact ih (d :: run)
    | content c =>
      have hnil := ih []
      rw [List.map_nil] at hnil
      simp only [List.map_cons, movedTo_content, contents, hnil, ← List.map_reverse,
        bareRule_movedTo, Sheet.movedTo_eq_map, List.map_append]

end Item

namespace Sheet

theorem Head.close_movedTo (items : List Item) (head : Head) :
    (head.movedTo place).close (items.map (·.movedTo place)) =
      (head.close items).movedTo place := by
  cases head with
  | atRule head =>
    have hcontents := Item.contents_movedTo place [] items
    rw [List.map_nil] at hcontents
    simp only [Head.movedTo, close, hcontents, Content.movedTo]
  | rule selectors location =>
    have hdeclarations : (items.map (·.movedTo place)).filterMap (·.declaration?) =
        (items.filterMap (·.declaration?)).map (·.movedTo place) := by
      rw [List.filterMap_map, List.map_filterMap]
      exact List.filterMap_congr fun i _ => by cases i <;> rfl
    have hcontents : (items.map (·.movedTo place)).filterMap (·.content?) =
        (items.filterMap (·.content?)).map (·.movedTo place) := by
      rw [List.filterMap_map, List.map_filterMap]
      exact List.filterMap_congr fun i _ => by cases i <;> rfl
    simp only [Head.movedTo, close, hdeclarations, hcontents, Content.movedTo, movedTo_eq_map,
      Option.map_some]

namespace State

theorem addDeclaration_movedTo (s : State) (read : Declaration × List Token) :
    (s.movedTo place).addDeclaration (read.map (·.movedTo place) (List.map (·.movedTo place))) =
      (s.addDeclaration read).movedTo place := by
  simp only [addDeclaration, movedTo, Prod.map_fst, Prod.map_snd, Declaration.isDangling_movedTo,
    List.map_cons, Item.movedTo_declaration]
  split <;> rfl

end State

/-! ### Steps -/

theorem Ending.inSelector_movedTo (ending : Ending) :
    (ending.movedTo place).inSelector = ending.inSelector.movedTo place := by
  cases ending with
  | mk failure l => cases failure <;> rfl

theorem Ending.getD_movedTo (ending : Ending) (e : Error) :
    (ending.movedTo place).failure.getD (e.movedTo place) =
      (ending.failure.getD e).movedTo place := by
  cases ending with
  | mk failure l => cases failure <;> rfl

theorem Ending.beforeSecond_movedTo (ending : Ending) (ts : List Token) :
    (ending.movedTo place).beforeSecond (ts.map (·.movedTo place)) =
      (ending.beforeSecond ts).map (·.movedTo place) := by
  match ts with
  | [] => rfl
  | [_] => rfl
  | _ :: _ :: _ => rfl

theorem startsRule_movedTo (ending : Ending) (depth : Nat) (ts : List Token) :
    startsRule (ending.movedTo place) depth (ts.map (·.movedTo place)) =
      moved place id (startsRule ending depth ts) := by
  induction ts generalizing depth with
  | nil =>
    simp only [List.map_nil, startsRule, Ending.movedTo]
    cases ending.failure <;> rfl
  | cons t ts ih => simp [startsRule, ih, Declaration.depthAfter_movedTo]

theorem runsIntoRule_movedTo (ts : List Token) :
    runsIntoRule (ts.map (·.movedTo place)) = runsIntoRule ts := by
  match ts with
  | [] => rfl
  | [_] => rfl
  | [_, _] => rfl
  | _ :: _ :: _ :: _ => simp [runsIntoRule]

theorem stepAtRule_movedTo (ending : Ending) (s : State) (sign : Token) (ts : List Token) :
    stepAtRule (ending.movedTo place) (s.movedTo place) (sign.movedTo place)
        (ts.map (·.movedTo place)) =
      (stepAtRule ending s sign ts).movedTo place := by
  have hgetD : ∀ fault, (ending.movedTo place).failure.getD (.grammar fault place) =
      (ending.failure.getD (.grammar fault sign.location)).movedTo place := fun fault =>
    ending.getD_movedTo place (.grammar fault sign.location)
  have hin : ∀ t, inCondition (Token.movedTo place t) = inCondition t := by simp [inCondition]
  cases ts with
  | nil => simp only [List.map_nil, stepAtRule, Token.location_movedTo, hgetD, Step.movedTo]
  | cons name ts =>
    simp only [List.map_cons, stepAtRule, Token.kind_movedTo, Token.spaced_movedTo,
      Token.text_movedTo, Token.location_movedTo, List.dropWhile_map, List.takeWhile_map,
      Function.comp_def, hin, hgetD, Fragment.ofTokens_movedTo]
    split
    · rfl
    cases ts.dropWhile inCondition with
    | nil => rfl
    | cons t rest =>
      simp only [List.map_cons, Token.isMark_movedTo]
      split <;> rfl

theorem stepRule_movedTo (ending : Ending) (s : State) (t : Token) (ts : List Token) :
    stepRule (ending.movedTo place) (s.movedTo place) (t.movedTo place)
        (ts.map (·.movedTo place)) =
      (stepRule ending s t ts).movedTo place := by
  have hsplit := Selector.Groups.split_movedTo place ending.inSelector 0 false (t :: ts)
  rw [List.map_cons] at hsplit
  rw [stepRule, stepRule, Ending.inSelector_movedTo, hsplit]
  cases Selector.Groups.split ending.inSelector 0 false (t :: ts) with
  | error e => rfl
  | ok g =>
    simp only [moved_ok, Selector.Groups.selectors_movedTo]
    cases g.selectors <;> rfl

/-- A step comes to the same wherever the tokens stand. -/
theorem step_movedTo (ending : Ending) (s : State) :
    step (ending.movedTo place) (s.movedTo place) = (step ending s).movedTo place := by
  obtain ⟨tokens, items, blocks, recovered⟩ := s
  cases tokens with
  | nil =>
    obtain ⟨failure, l⟩ := ending
    cases failure with
    | some e => rfl
    | none =>
      cases blocks with
      | cons b blocks => rfl
      | nil =>
        have hcontents := Item.contents_movedTo place [] items.reverse
        rw [List.map_reverse] at hcontents
        exact congrArg Step.done hcontents
  | cons t ts =>
    have hatRule := stepAtRule_movedTo place ending ⟨t :: ts, items, blocks, recovered⟩ t ts
    have hrule := stepRule_movedTo place ending ⟨t :: ts, items, blocks, recovered⟩ t ts
    have hstarts := startsRule_movedTo place ending 0 (t :: ts)
    have hruns := runsIntoRule_movedTo place (t :: ts)
    rw [List.map_cons] at hstarts hruns
    unfold step
    simp only [State.movedTo, List.map_cons, Token.isMark_movedTo, hstarts, hruns,
      Ending.beforeSecond_movedTo, Declaration.readDeclaration_movedTo,
      Declaration.readUnterminated_movedTo] at hatRule hrule ⊢
    split
    · cases blocks with
      | nil => rfl
      | cons b blocks =>
        have hclose := b.head.close_movedTo place items.reverse
        rw [List.map_reverse] at hclose
        simp only [List.map_cons, Block.movedTo, hclose, Step.movedTo, State.movedTo,
          Item.movedTo_content]
    split
    · rfl
    split
    · exact hatRule
    cases startsRule ending 0 (t :: ts) with
    | error e => rfl
    | ok starts =>
      have hadd := State.addDeclaration_movedTo place ⟨t :: ts, items, blocks, recovered⟩
      cases starts with
      | false => exact congrArg Step.next (hadd _)
      | true =>
        simp only [moved_ok, id_eq]
        cases ending.beforeSecond ts with
        | some e => rfl
        | none =>
          simp only [Option.map_none]
          split
          · exact congrArg Step.next (hadd _)
          · exact hrule

/-- Reading comes to the same wherever the tokens stand. -/
theorem run_movedTo (ending : Ending) (s : State) :
    (run (ending.movedTo place) (s.movedTo place)).result =
      moved place (Sheet.movedTo place) (run ending s).result := by
  induction s using run.induct ending with
  | case1 s s' hstep _ ih =>
    have hmoved := step_movedTo place ending s
    rw [hstep] at hmoved
    rw [run_of_next hstep, run_of_next hmoved, ih]
  | case2 s sheet hstep =>
    have hmoved := step_movedTo place ending s
    rw [hstep] at hmoved
    rw [run_of_done hstep, run_of_done hmoved, moved_ok]
  | case3 s e hstep =>
    have hmoved := step_movedTo place ending s
    rw [hstep] at hmoved
    rw [run_of_failed hstep, run_of_failed hmoved, moved_error]

end Sheet

/-! ### White space in front -/

namespace Declaration

theorem placeOf_unspaced (key : Token) (body : List Token) :
    placeOf key.unspaced body = placeOf key body := by
  unfold placeOf
  cases body.getLast? <;> rfl

theorem dangle_unspaced (key : Token) (body : List Token) (reason : Text) :
    dangle key.unspaced body reason = dangle key body reason := by
  simp only [dangle, placeOf_unspaced]
  rfl

theorem ofTokens_unspaced (key : Token) (body : List Token) :
    ofTokens key.unspaced body = ofTokens key body := by
  simp only [ofTokens, placeOf_unspaced, dangle_unspaced]
  rfl

theorem readDeclaration_unspaced (key : Token) (ts : List Token) :
    readDeclaration key.unspaced ts = readDeclaration key ts := by
  simp only [readDeclaration, ofTokens_unspaced, dangle_unspaced]
  rfl

theorem readUnterminated_unspaced (key : Token) (ts : List Token) :
    readUnterminated key.unspaced ts = readUnterminated key ts := by
  simp only [readUnterminated, dangle_unspaced]
  rfl

end Declaration

namespace Sheet

theorem stepRule_unspaced (ending : Ending) (s : State) (t : Token) (ts : List Token) :
    stepRule ending s t.unspaced ts = stepRule ending s t ts := by
  have hsplit := Selector.Groups.split_unspaced ending.inSelector t ts
  rw [stepRule, stepRule]
  cases hflush : Selector.Groups.split ending.inSelector 0 false (t.unspaced :: ts) <;>
    cases hspaced : Selector.Groups.split ending.inSelector 0 false (t :: ts) <;>
    rw [hflush, hspaced] at hsplit
  · cases hsplit
    rfl
  · cases hsplit
  · cases hsplit
  · simp only [map_ok, Except.ok.injEq, Prod.mk.injEq] at hsplit
    obtain ⟨hselectors, hbrace, hrest⟩ := hsplit
    simp only [hselectors, hbrace, hrest]
    rfl

/-- A step does not look at white space in front of all tokens. -/
theorem step_flushLeft (ending : Ending) (s : State) :
    step ending { s with tokens := Token.flushLeft s.tokens } = step ending s := by
  obtain ⟨tokens, items, blocks, recovered⟩ := s
  cases tokens with
  | nil => rfl
  | cons t ts =>
    have hstarts : startsRule ending 0 (t.unspaced :: ts) = startsRule ending 0 (t :: ts) := rfl
    have hruns : runsIntoRule (t.unspaced :: ts) = runsIntoRule (t :: ts) := by
      match ts with
      | [] => rfl
      | [_] => rfl
      | _ :: _ :: _ => rfl
    simp only [step, Token.flushLeft, Token.isMark_unspaced, hstarts, hruns,
      Declaration.readDeclaration_unspaced, Declaration.readUnterminated_unspaced,
      stepRule_unspaced]
    rfl

/-- Reading does not look at white space in front of all tokens. -/
theorem run_flushLeft (ending : Ending) (s : State) :
    run ending { s with tokens := Token.flushLeft s.tokens } = run ending s := by
  have hflush := step_flushLeft ending s
  cases hstep : step ending s with
  | next s' => rw [run_of_next hstep, run_of_next (hflush.trans hstep)]
  | done sheet => rw [run_of_done hstep, run_of_done (hflush.trans hstep)]
  | failed e => rw [run_of_failed hstep, run_of_failed (hflush.trans hstep)]

/-- What a source reads as, moved to one place, is read from its tokens moved there, without the
white space in front of them. -/
theorem moved_parse (place : Location) {source : Text}
    (htokens : (Text.tokenize source).failure = none) :
    moved place (Sheet.movedTo place) (parse source) =
      (run ⟨none, place⟩
        { tokens :=
            Token.flushLeft ((Text.tokenize source).tokens.map (·.movedTo place)) }).result := by
  have hflush := run_flushLeft ⟨none, place⟩
    { tokens := (Text.tokenize source).tokens.map (·.movedTo place) }
  rw [hflush, parse, read, htokens]
  exact (run_movedTo place (.ofSource source none) { tokens := (Text.tokenize source).tokens }).symm

end Sheet

/-! ### Places left out -/

theorem Fragment.unplaced_movedTo (f : Fragment) : (f.movedTo place).unplaced = f.unplaced := by
  cases f <;> rfl

theorem Selector.unplaced_movedTo (s : Selector) : (s.movedTo place).unplaced = s.unplaced := by
  simp [unplaced, movedTo, Fragment.unplaced_movedTo, Function.comp_def]

theorem Declaration.unplaced_movedTo (d : Declaration) :
    (d.movedTo place).unplaced = d.unplaced := by
  simp [unplaced, movedTo, Fragment.unplaced_movedTo, Function.comp_def]

theorem AtRule.unplaced_movedTo (a : AtRule) : (a.movedTo place).unplaced = a.unplaced := by
  simp [unplaced, movedTo, Fragment.unplaced_movedTo, Function.comp_def]

mutual

theorem Content.unplaced_movedTo : (c : Content) → (c.movedTo place).unplaced = c.unplaced
  | .rule selectors declarations nested location => by
    simp [Content.movedTo, Content.unplaced, Selector.unplaced_movedTo,
      Declaration.unplaced_movedTo, Sheet.unplaced_movedTo nested, Function.comp_def]
  | .atRule head body => by
    simp [Content.movedTo, Content.unplaced, AtRule.unplaced_movedTo, Sheet.unplaced_movedTo body]

/-- A sheet without places is the same wherever it was moved. -/
theorem Sheet.unplaced_movedTo : (s : Sheet) → Sheet.unplaced (s.movedTo place) = s.unplaced
  | [] => rfl
  | c :: cs => by
    simp [Sheet.movedTo, Sheet.unplaced, Content.unplaced_movedTo c, Sheet.unplaced_movedTo cs]

end

end ScopedCss
