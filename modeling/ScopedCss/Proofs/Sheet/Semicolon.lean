/-
Declarations with and without the `;` between them. A declaration is read up to the next `;`, or to
the next `name:` if that comes first (`Declaration.readDeclaration_single`,
`Declaration.readDeclaration_followed`), so a body is read statement by statement, whichever of its
semicolons are missing (`Sheet.run_statements`).
-/
import ScopedCss.Proofs.Selector.Simple
import ScopedCss.Proofs.Sheet.Reading

namespace ScopedCss

open Declaration (depthAfter propertyIndex nextProperty)
open Sheet (inCondition)

namespace Token

/-- How many more brackets open than close. -/
def excess (ts : List Token) : Int := ts.countP (·.isOpener) - ts.countP (·.isCloser)

theorem excess_cons (t : Token) (ts : List Token) : excess (t :: ts) = excess [t] + excess ts := by
  simp only [excess, List.countP_cons, List.countP_nil]
  omega

/-- Where no bracket closes that was not opened, the depth counts the brackets. -/
theorem foldl_depthAfter {d : Nat} {ts : List Token} (h : ∀ us ∈ ts.inits, 0 ≤ d + excess us) :
    ((ts.foldl depthAfter d : Nat) : Int) = d + excess ts := by
  induction ts generalizing d with
  | nil => simp [excess]
  | cons t ts ih =>
    have hinits : ∀ us ∈ ts.inits, 0 ≤ d + (excess [t] + excess us) := by
      intro us hus
      rw [← excess_cons]
      refine h (t :: us) ?_
      rw [List.inits_cons]
      exact List.mem_cons_of_mem _ (List.mem_map_of_mem hus)
    have hdepth : (depthAfter d t : Int) = d + excess [t] := by
      have hfirst := hinits [] (by simp)
      unfold depthAfter
      split
      · rename_i hopen
        simp [excess, hopen, isCloser_of_isOpener hopen]
      split
      · rename_i hopen hclose
        simp only [excess, List.countP_cons, List.countP_nil, hopen, hclose] at hfirst ⊢
        simp only [Bool.false_eq_true, if_false, if_true] at hfirst ⊢
        omega
      · rename_i hopen hclose
        simp [excess, hopen, hclose]
    rw [List.foldl_cons, ih, hdepth, excess_cons t ts]
    · omega
    · intro us hus
      rw [hdepth]
      have hle := hinits us hus
      omega

end Token

/-- A declaration as it is written, without the `;` behind it. -/
structure Statement where
  key : Token
  colon : Token
  value : List Token

namespace Statement

def tokens (w : Statement) : List Token := w.key :: w.colon :: w.value

/-- A name, a colon and a value. The value has no `;` and no brace, its brackets are paired, and
outside them it has no colon. -/
structure Sound (w : Statement) : Prop where
  key : w.key.kind = .ident
  colon : w.colon.isMark ':' = true
  value : w.value ≠ []
  inside : ∀ t ∈ w.value, inCondition t = true
  opened : ∀ us ∈ w.value.inits, 0 ≤ Token.excess us
  closed : Token.excess w.value = 0
  single : ∀ i : Fin w.value.length, Token.excess (w.value.take i) = 0 →
    (w.value.get i).isMark ':' = false

instance (w : Statement) : Decidable w.Sound :=
  decidable_of_iff
    (w.key.kind = .ident ∧ w.colon.isMark ':' = true ∧ w.value ≠ [] ∧
      (∀ t ∈ w.value, inCondition t = true) ∧ (∀ us ∈ w.value.inits, 0 ≤ Token.excess us) ∧
      Token.excess w.value = 0 ∧ ∀ i : Fin w.value.length, Token.excess (w.value.take i) = 0 →
        (w.value.get i).isMark ':' = false)
    ⟨fun ⟨key, colon, value, inside, opened, closed, single⟩ =>
      ⟨key, colon, value, inside, opened, closed, single⟩,
      fun h => ⟨h.key, h.colon, h.value, h.inside, h.opened, h.closed, h.single⟩⟩

/-- What is read: the name and the value, whether the `;` is there or not. -/
def declaration (w : Statement) (terminated : Bool) : Declaration :=
  { key := .literal w.key.text
    value := Fragment.ofTokens w.value
    location := some (Declaration.placeOf w.key (w.colon :: w.value))
    dangling := if terminated then none else some (Declaration.missingSemicolon w.key) }

/-- The tokens of `first` and the statements after it, each with the `;` in front of it or
without. -/
def bodyTokens (first : Statement) : List (Option Token × Statement) → List Token
  | [] => first.tokens
  | (semicolon, next) :: others =>
    first.tokens ++ (semicolon.toList ++ bodyTokens next others)

/-- The declarations of a body. The last one needs no `;`. -/
def bodyDeclarations (first : Statement) : List (Option Token × Statement) → List Declaration
  | [] => [first.declaration true]
  | (semicolon, next) :: others =>
    first.declaration semicolon.isSome :: bodyDeclarations next others

/-- Statements that may follow another: white space stands before the name. -/
structure Follows (p : Option Token × Statement) : Prop where
  sound : p.2.Sound
  spaced : p.2.key.spaced = true
  semicolon : ∀ t ∈ p.1, t.isMark ';' = true

instance (p : Option Token × Statement) : Decidable (Follows p) :=
  decidable_of_iff (p.2.Sound ∧ p.2.key.spaced = true ∧ ∀ t ∈ p.1, t.isMark ';' = true)
    ⟨fun ⟨sound, spaced, semicolon⟩ => ⟨sound, spaced, semicolon⟩,
      fun h => ⟨h.sound, h.spaced, h.semicolon⟩⟩

variable {w : Statement}

theorem Sound.foldl_value (h : w.Sound) : w.value.foldl depthAfter 0 = 0 := by
  have hdepth := Token.foldl_depthAfter (d := 0) (by simpa using h.opened)
  rw [h.closed] at hdepth
  simpa using hdepth

/-- Outside brackets the value has no colon, as far as the depth tells. -/
theorem Sound.colon_of_foldl (h : w.Sound) {us ws : List Token} {t : Token}
    (hvalue : w.value = us ++ t :: ws) (hdepth : us.foldl depthAfter 0 = 0) :
    t.isMark ':' = false := by
  have hinits : us ∈ w.value.inits := by
    rw [List.mem_inits, hvalue]
    exact List.prefix_append ..
  have hexcess : Token.excess us = 0 := by
    have hcount : ((us.foldl depthAfter 0 : Nat) : Int) = 0 + Token.excess us := by
      refine Token.foldl_depthAfter (d := 0) fun vs hvs => ?_
      have hopened := h.opened vs ?_
      · simpa using hopened
      rw [List.mem_inits] at hvs hinits ⊢
      exact hvs.trans hinits
    rw [hdepth] at hcount
    simpa using hcount.symm
  have hlength : us.length < w.value.length := by simp [hvalue]
  have hsingle := h.single ⟨us.length, hlength⟩
  simp only [hvalue, List.take_left, List.get_eq_getElem, List.getElem_append_right (Nat.le_refl _),
    Nat.sub_self, List.getElem_cons_zero] at hsingle
  exact hsingle hexcess

theorem Sound.inside_tokens (h : w.Sound) : ∀ t ∈ w.tokens, inCondition t = true := by
  refine List.forall_mem_cons.2 ⟨?_, List.forall_mem_cons.2 ⟨?_, h.inside⟩⟩
  · have hmark := Token.isMark_of_kind (t := w.key) (by rw [h.key]; decide)
    simp [inCondition, Token.isTerminator, hmark]
  · simp [inCondition, Token.isTerminator, Token.isMark_eq h.colon]

theorem Sound.foldl_tokens (h : w.Sound) : w.tokens.foldl depthAfter 0 = 0 := by
  have hkey := Token.isMark_of_kind (t := w.key) (by rw [h.key]; decide)
  have hcolon := Token.isMark_eq h.colon
  simp only [tokens, List.foldl_cons]
  simpa [depthAfter, Token.isOpener, Token.isCloser, hkey, hcolon] using h.foldl_value

end Statement

namespace Sheet

/-- Tokens inside a statement are passed over in the search for a brace. -/
theorem startsRule_inside {ending : Ending} {d : Nat} {ts : List Token}
    (h : ∀ t ∈ ts, inCondition t = true) (rest : List Token) :
    startsRule ending d (ts ++ rest) = startsRule ending (ts.foldl depthAfter d) rest := by
  induction ts generalizing d with
  | nil => rfl
  | cons t ts ih =>
    obtain ⟨ht, hts⟩ := List.forall_mem_cons.1 h
    simp only [inCondition, Bool.not_eq_true', Bool.or_eq_false_iff] at ht
    rw [List.cons_append, startsRule, List.foldl_cons]
    split
    · exact ih hts
    · rename_i hbracket
      simp only [Bool.or_eq_true, not_or] at hbracket
      rw [if_neg (by simp [ht.1]), if_neg (by simp [ht.2]), ih hts, depthAfter,
        if_neg hbracket.1, if_neg hbracket.2]

end Sheet

namespace Declaration

/-- No property begins in tokens that have no colon outside brackets. -/
theorem propertyIndex_append {d : Nat} {vs rest : List Token}
    (hsingle : ∀ us t ws, vs = us ++ t :: ws → us.foldl depthAfter d = 0 → t.isMark ':' = false)
    (hrest : ∀ t ∈ rest.head?, t.isMark ':' = false) :
    propertyIndex d (vs ++ rest) =
      (· + vs.length) <$> propertyIndex (vs.foldl depthAfter d) rest := by
  induction vs generalizing d with
  | nil =>
    cases h : propertyIndex d rest <;> simp [h]
  | cons v vs ih =>
    have hnext : depthAfter d v = 0 → (vs ++ rest).head?.any (·.isMark ':') = false := by
      intro hdepth
      cases vs with
      | nil =>
        cases rest with
        | nil => rfl
        | cons t rest => exact hrest t rfl
      | cons u vs => exact hsingle [v] u vs rfl hdepth
    have hlater : ∀ us t ws, vs = us ++ t :: ws → us.foldl depthAfter (depthAfter d v) = 0 →
        t.isMark ':' = false := by
      intro us t ws hvs hdepth
      exact hsingle (v :: us) t ws (by rw [hvs, List.cons_append]) hdepth
    rw [List.cons_append, propertyIndex, if_neg ?_, ih hlater, List.foldl_cons]
    · cases propertyIndex (vs.foldl depthAfter (depthAfter d v)) rest
      · rfl
      · simp only [Option.map_eq_map, Option.map_some, List.length_cons]
        congr 1
    · simp only [Bool.and_eq_true, decide_eq_true_eq]
      rintro ⟨⟨⟨hdepth, -⟩, -⟩, hcolon⟩
      rw [hnext hdepth] at hcolon
      cases hcolon

/-- The next property of a value is the one that follows it. -/
theorem nextProperty_append {w : Statement} (h : w.Sound) {rest : List Token}
    (hrest : ∀ t ∈ rest.head?, t.isMark ':' = false) :
    nextProperty (w.value ++ rest) = (· + w.value.length) <$> propertyIndex 0 rest := by
  obtain ⟨v, vs, hvalue⟩ := List.exists_cons_of_ne_nil h.value
  have hfoldl := h.foldl_value
  rw [hvalue, List.foldl_cons] at hfoldl
  have hsingle : ∀ us t ws, vs = us ++ t :: ws → us.foldl depthAfter (depthAfter 0 v) = 0 →
      t.isMark ':' = false := by
    intro us t ws hvs hdepth
    have hall : w.value = (v :: us) ++ t :: ws := by rw [hvalue, hvs, List.cons_append]
    exact h.colon_of_foldl hall hdepth
  rw [hvalue, List.cons_append, nextProperty, propertyIndex_append hsingle hrest, hfoldl]
  cases propertyIndex 0 rest
  · rfl
  · simp only [Option.map_eq_map, Option.map_some, List.length_cons]
    congr 1

theorem takeWhile_body {ts : List Token} (h : ∀ t ∈ ts, inCondition t = true)
    (rest : List Token) :
    (ts ++ rest).takeWhile (!·.isTerminator) = ts ++ rest.takeWhile (!·.isTerminator) ∧
      (ts ++ rest).dropWhile (!·.isTerminator) = rest.dropWhile (!·.isTerminator) := by
  have hts : ∀ t ∈ ts, (!t.isTerminator) = true := by
    intro t ht
    have hinside := h t ht
    simp only [inCondition, Bool.not_eq_true', Bool.or_eq_false_iff] at hinside
    simp [hinside.2]
  exact ⟨List.takeWhile_append_of_pos hts, List.dropWhile_append_of_pos hts⟩

/-- A declaration that no other property follows is read whole. -/
theorem readDeclaration_alone {key colon : Token} {vs rest : List Token} (hkey : key.kind = .ident)
    (hcolon : colon.isMark ':' = true) (hvs : vs ≠ [])
    (hinside : ∀ t ∈ colon :: vs, inCondition t = true) (halone : nextProperty vs = none)
    (hrest : ∀ t ∈ rest.head?, t.isTerminator = true) :
    readDeclaration key (colon :: vs ++ rest) =
      ({ key := .literal key.text
         value := Fragment.ofTokens vs
         location := some (placeOf key (colon :: vs)) }, dropSemicolon rest) := by
  obtain ⟨htake, hdrop⟩ := takeWhile_body hinside rest
  have hstop : rest.takeWhile (!·.isTerminator) = [] ∧ rest.dropWhile (!·.isTerminator) = rest := by
    cases rest with
    | nil => exact ⟨rfl, rfl⟩
    | cons t rest => simp [hrest t rfl]
  have hplaceholder : key.kind ≠ .placeholder := by
    rw [hkey]
    decide
  rw [readDeclaration, htake, hdrop, hstop.1, hstop.2, List.append_nil]
  simp only [ownLength?, hcolon, if_true, halone, Option.map_eq_map, Option.map_none]
  simp [ofTokens, hkey, hcolon, hvs, Fragment.ofToken]

theorem readDeclaration_single {w : Statement} (h : w.Sound) {rest : List Token}
    (hrest : ∀ t ∈ rest.head?, t.isTerminator = true) :
    readDeclaration w.key (w.colon :: w.value ++ rest) =
      (w.declaration true, dropSemicolon rest) := by
  have halone : nextProperty w.value = none := by
    have hnext : nextProperty (w.value ++ []) = (· + w.value.length) <$> propertyIndex 0 [] :=
      nextProperty_append h nofun
    rwa [List.append_nil] at hnext
  rw [readDeclaration_alone h.key h.colon h.value (List.forall_mem_cons.1 h.inside_tokens).2 halone
    hrest, Statement.declaration, if_pos rfl]

/-- A declaration that another one follows is cut there and lacks its `;`. -/
theorem readDeclaration_followed {w : Statement} (h : w.Sound) {key colon : Token}
    {rest : List Token} (hkey : key.kind = .ident) (hspaced : key.spaced = true)
    (hcolon : colon.isMark ':' = true) :
    readDeclaration w.key (w.colon :: w.value ++ key :: colon :: rest) =
      (w.declaration false, key :: colon :: rest) := by
  have hmark := Token.isMark_of_kind (t := key) (by rw [hkey]; decide)
  have hpair : ∀ t ∈ [key, colon], inCondition t = true := by
    simp [inCondition, Token.isTerminator, hmark, Token.isMark_eq hcolon]
  obtain ⟨htake, hdrop⟩ := takeWhile_body (List.forall_mem_cons.1 h.inside_tokens).2
    (key :: colon :: rest)
  obtain ⟨htake', hdrop'⟩ := takeWhile_body hpair rest
  have hindex : ∀ more, propertyIndex 0 ([key, colon] ++ more) = some 0 := by
    intro more
    simp [propertyIndex, depthAfter, Token.isOpener, Token.isCloser, hmark, hkey, hspaced, hcolon]
  have hown : ∀ more, ownLength? (w.colon :: w.value ++ ([key, colon] ++ more)) =
      some (w.value.length + 1) := by
    intro more
    have hfirst : ∀ t ∈ ([key, colon] ++ more).head?, t.isMark ':' = false := by
      rintro t ⟨⟩
      exact hmark ':'
    rw [List.cons_append, ownLength?, if_pos h.colon, nextProperty_append h hfirst, hindex]
    simp
  rw [readDeclaration, htake, hdrop]
  rw [show key :: colon :: rest = [key, colon] ++ rest from rfl, htake', hdrop']
  simp only [hown]
  refine Prod.ext ?_ ?_
  · rw [List.cons_append, List.take_succ_cons, List.take_left]
    simp [dangle, h.colon, Statement.declaration]
  · rw [List.cons_append, List.drop_succ_cons, List.drop_left, List.append_assoc,
      List.takeWhile_append_dropWhile]

end Declaration

namespace Sheet

open Statement (bodyTokens bodyDeclarations Follows)

variable {ending : Ending} {first : Statement} {others : List (Option Token × Statement)}
  {rest : List Token}

/-- Where a body ends: at a closing brace, or with the source. -/
def Ending.Closes (ending : Ending) : List Token → Prop
  | [] => ending.failure = none
  | t :: _ => t.isMark '\x7d' = true

theorem startsRule_of_closes (h : ending.Closes rest) : startsRule ending 0 rest = .ok false := by
  cases rest with
  | nil => simp [startsRule, show ending.failure = none from h]
  | cons t rest =>
    have hmark : t.isMark '\x7d' = true := h
    simp [startsRule, Token.isOpener, Token.isCloser, Token.isTerminator, Token.isMark_eq hmark]

/-- No rule begins in a body of declarations. -/
theorem startsRule_body (hfirst : first.Sound) (hothers : ∀ p ∈ others, Follows p)
    (hrest : ending.Closes rest) :
    startsRule ending 0 (bodyTokens first others ++ rest) = .ok false := by
  induction others generalizing first with
  | nil =>
    rw [bodyTokens, startsRule_inside hfirst.inside_tokens, hfirst.foldl_tokens,
      startsRule_of_closes hrest]
  | cons p others ih =>
    obtain ⟨semicolon, next⟩ := p
    obtain ⟨hnext, hlater⟩ := List.forall_mem_cons.1 hothers
    rw [bodyTokens, List.append_assoc, startsRule_inside hfirst.inside_tokens, hfirst.foldl_tokens]
    cases semicolon with
    | none => exact ih hnext.sound hlater
    | some t =>
      have hmark := Token.isMark_eq (hnext.semicolon t rfl)
      simp [startsRule, Token.isOpener, Token.isCloser, Token.isTerminator, hmark]

/-- The state with declarations read, and `rest` to come. -/
def State.withDeclarations (s : State) (ds : List Declaration) (rest : List Token) : State :=
  { s with
    tokens := rest
    items := (ds.map .declaration).reverse ++ s.items
    recovered := (ds.filter (·.isDangling)).reverse ++ s.recovered }

theorem step_of_declaration {s : State} {key : Token} {ts : List Token}
    (htokens : s.tokens = key :: ts) (hkey : key.kind = .ident)
    (hends : startsRule ending 0 (key :: ts) = .ok false) :
    step ending s = .next (s.addDeclaration (Declaration.readDeclaration key ts)) := by
  have hmark := Token.isMark_of_kind (t := key) (by rw [hkey]; decide)
  rw [step, htokens]
  simp only [hmark, hends, Bool.false_eq_true, if_false]

/-- A body is read statement by statement, with or without the semicolons between them. -/
theorem run_statements {s : State} (hfirst : first.Sound) (hothers : ∀ p ∈ others, Follows p)
    (hrest : ending.Closes rest) (htokens : s.tokens = bodyTokens first others ++ rest) :
    run ending s = run ending (s.withDeclarations (bodyDeclarations first others) rest) := by
  have hterminates : ∀ t ∈ rest.head?, t.isTerminator = true := by
    intro t ht
    cases rest with
    | nil => cases ht
    | cons u rest =>
      cases ht
      have hmark : t.isMark '\x7d' = true := hrest
      simp [Token.isTerminator, hmark]
  have hends := startsRule_body hfirst hothers hrest
  induction others generalizing first s with
  | nil =>
    have hdrop : Declaration.dropSemicolon rest = rest := by
      cases rest with
      | nil => rfl
      | cons t rest =>
        rw [Declaration.dropSemicolon, if_neg (by simp [Token.isMark_eq hrest])]
    have hread := Declaration.readDeclaration_single hfirst hterminates
    rw [hdrop] at hread
    have hstep := step_of_declaration htokens hfirst.key hends
    rw [run_of_next hstep, show (first.colon :: first.value).append rest =
      first.colon :: first.value ++ rest from rfl, hread]
    simp [State.addDeclaration, State.withDeclarations, bodyDeclarations, Statement.declaration,
      Declaration.isDangling]
  | cons p others ih =>
    obtain ⟨semicolon, next⟩ := p
    obtain ⟨hnext, hlater⟩ := List.forall_mem_cons.1 hothers
    obtain ⟨after, hafter⟩ : ∃ after, bodyTokens next others ++ rest = after := ⟨_, rfl⟩
    have hread : Declaration.readDeclaration first.key
        (first.colon :: first.value ++ (semicolon.toList ++ after)) =
          (first.declaration semicolon.isSome, after) := by
      cases semicolon with
      | some t =>
        have hmark := hnext.semicolon t rfl
        refine (Declaration.readDeclaration_single hfirst ?_).trans ?_
        · rintro u ⟨⟩
          simp [Token.isTerminator, hmark]
        · simp [Declaration.dropSemicolon, hmark]
      | none =>
        obtain ⟨more, hmore⟩ : ∃ more, after = next.key :: next.colon :: more := by
          rw [← hafter]
          cases others with
          | nil => exact ⟨_, rfl⟩
          | cons p others => exact ⟨_, rfl⟩
        rw [hmore]
        exact Declaration.readDeclaration_followed hfirst hnext.sound.key hnext.spaced
          hnext.sound.colon
    have htokens' : s.tokens =
        first.key :: (first.colon :: first.value ++ (semicolon.toList ++ after)) := by
      rw [htokens, bodyTokens, ← hafter]
      simp [Statement.tokens]
    rw [run_of_next (step_of_declaration htokens' hfirst.key ?_), hread,
      ih hnext.sound hlater hafter.symm (startsRule_body hnext.sound hlater hrest)]
    · cases semicolon <;>
        simp [State.addDeclaration, State.withDeclarations, bodyDeclarations,
          Statement.declaration, Declaration.isDangling]
    · rw [← htokens', htokens, hends]

/-- The block of a head with declarations and nothing else. -/
def Head.withDeclarations (ds : List Declaration) : Head → Content
  | rule selectors location => .rule selectors ds [] (some location)
  | atRule head => .atRule head (Item.bareRule ds)

theorem contents_declarations (run ds : List Declaration) :
    Item.contents run (ds.map .declaration) = Item.bareRule (run.reverse ++ ds) := by
  induction ds generalizing run with
  | nil => simp [Item.contents]
  | cons d ds ih => simpa [Item.contents] using ih (d :: run)

theorem Head.close_declarations (head : Head) (ds : List Declaration) :
    head.close (ds.map .declaration) = head.withDeclarations ds := by
  cases head with
  | atRule a => simp [Head.close, Head.withDeclarations, contents_declarations]
  | rule selectors location =>
    have hdeclarations : (ds.map Item.declaration).filterMap (·.declaration?) = ds := by
      induction ds with
      | nil => rfl
      | cons d ds ih => simp [Item.declaration?]
    have hcontents : (ds.map Item.declaration).filterMap (·.content?) = [] := by
      simp [Item.content?]
    rw [Head.close, hdeclarations, hcontents, Head.withDeclarations]

/-- Whichever of its semicolons are missing, a body comes to the same names and values, and only a
declaration without its `;` dangles: as a whole sheet, and between the braces of any block. -/
theorem read_statements (hfirst : first.Sound) (hothers : ∀ p ∈ others, Follows p) :
    (∀ source, (Text.tokenize source).tokens = bodyTokens first others →
      (Text.tokenize source).failure = none →
      parse source = .ok [.rule [] (bodyDeclarations first others) []
        (some (Declaration.placeOf first.key (first.colon :: first.value)))]) ∧
    ∀ (ending : Ending) (block : Block) (blocks : List Block) (recovered : List Declaration)
      (brace : Token) (rest : List Token), brace.isMark '\x7d' = true →
      run ending
          { tokens := bodyTokens first others ++ brace :: rest
            blocks := block :: blocks
            recovered := recovered } =
        run ending
          { tokens := rest
            items := .content (block.head.withDeclarations (bodyDeclarations first others)) ::
              block.before
            blocks := blocks
            recovered := ((bodyDeclarations first others).filter (·.isDangling)).reverse ++
              recovered } := by
  constructor
  · intro source htokens hfailure
    have hcloses : (Ending.ofSource source none).Closes [] := rfl
    have hstart : State.tokens { tokens := bodyTokens first others } =
        bodyTokens first others ++ [] := (List.append_nil _).symm
    have hdone : step (.ofSource source none)
        (State.withDeclarations { tokens := bodyTokens first others } (bodyDeclarations first others)
          []) = .done (Item.bareRule (bodyDeclarations first others)) := by
      simp [step, State.withDeclarations, Ending.ofSource, contents_declarations]
    rw [parse, read, htokens, hfailure, run_statements hfirst hothers hcloses hstart,
      run_of_done hdone]
    cases others <;> rfl
  · intro ending block blocks recovered brace rest hbrace
    have hcloses : ending.Closes (brace :: rest) := hbrace
    rw [run_statements hfirst hothers hcloses rfl]
    refine run_of_next ?_
    simp [step, State.withDeclarations, hbrace, Head.close_declarations]

/-- Three declarations and one `;`: a colon in brackets belongs to the value. -/
def looseSource : Text := "a: b(c: d) e: 1px f; g: h".toList

def looseToken (i : Nat) : Token :=
  (Text.tokenize looseSource).tokens.getD i ⟨.punct, [], [], default, false⟩

def looseFirst : Statement :=
  ⟨looseToken 0, looseToken 1, [2, 3, 4, 5, 6, 7].map looseToken⟩

def looseOthers : List (Option Token × Statement) :=
  [(none, ⟨looseToken 8, looseToken 9, [10, 11].map looseToken⟩),
    (some (looseToken 12), ⟨looseToken 13, looseToken 14, [looseToken 15]⟩)]

theorem read_looseSource :
    parse looseSource = .ok [.rule [] (bodyDeclarations looseFirst looseOthers) []
        (some ⟨0, 10, 1, 1⟩)] ∧
      (bodyDeclarations looseFirst looseOthers).map
          (fun d => (d.key.text, Fragment.render d.value, d.isDangling)) =
        [(['a'], "b(c: d)".toList, true), (['e'], "1px f".toList, false),
          (['g'], ['h'], false)] := by
  have hfirst : looseFirst.Sound := by decide +kernel
  have hothers : ∀ p ∈ looseOthers, Follows p := by decide +kernel
  have hplace : Declaration.placeOf looseFirst.key (looseFirst.colon :: looseFirst.value) =
      ⟨0, 10, 1, 1⟩ := by decide +kernel
  have hparse := (read_statements hfirst hothers).1 looseSource (by decide +kernel)
    (by decide +kernel)
  rw [hplace] at hparse
  exact ⟨hparse, by decide +kernel⟩

end Sheet

end ScopedCss
