/-
Reading a sheet. The reader is a machine: its state holds the blocks that are open, the items read
in the innermost one and the tokens still to come, and one step reads one item or the head of one
block. `tokens_lt_of_step`: every step leaves fewer tokens.

Tokens may end in a lexical failure. It shows only when a step needs a token past the last one, so a
grammatical fault before that point comes first.
-/
import ScopedCss.Selector.Parser
import ScopedCss.Sheet.Recovery
import ScopedCss.Token.Lexer

namespace ScopedCss

/-- One item of a block, in source order. -/
inductive Item where
  | declaration (d : Declaration)
  | content (c : Content)
deriving Repr

namespace Item

def declaration? : Item → Option Declaration
  | declaration d => some d
  | content _ => none

def content? : Item → Option Content
  | declaration _ => none
  | content c => some c

/-- A run of declarations outside any rule, as a rule without selectors. -/
def bareRule : List Declaration → List Content
  | [] => []
  | d :: ds => [.rule [] (d :: ds) [] d.location]

/-- The contents of a sheet or of an at-rule: each run of declarations becomes one rule. `run` is
the run read so far, the last one first. -/
def contents (run : List Declaration) : List Item → List Content
  | [] => bareRule run.reverse
  | declaration d :: items => contents (d :: run) items
  | content c :: items => bareRule run.reverse ++ c :: contents [] items

end Item

namespace Sheet

/-- What opened a block. -/
inductive Head where
  | rule (selectors : List Selector) (location : Location)
  | atRule (head : AtRule)
deriving Repr

/-- The content that a head and the items of its block make. -/
def Head.close (items : List Item) : Head → Content
  | rule selectors location =>
    .rule selectors (items.filterMap (·.declaration?)) (items.filterMap (·.content?))
      (some location)
  | atRule head => .atRule head (Item.contents [] items)

/-- An open block: its head, where its brace stands, and the items read before it in the block
around it, the last one first. -/
structure Block where
  head : Head
  opening : Location
  before : List Item
deriving Repr

/-- A sheet partly read. -/
structure State where
  tokens : List Token
  items : List Item := []
  blocks : List Block := []
  /-- The malformed declarations recovered from, the last one first. -/
  recovered : List Declaration := []
deriving Repr

/-- What a step comes to. -/
inductive Step where
  | next (s : State)
  | done (sheet : Sheet)
  | failed (e : Error)
deriving Repr

namespace State

/-- The state with a declaration read, and the tokens that come after it. -/
def addDeclaration (s : State) (read : Declaration × List Token) : State :=
  { s with
    tokens := read.2
    items := .declaration read.1 :: s.items
    recovered := if read.1.isDangling then read.1 :: s.recovered else s.recovered }

/-- The state inside a new block, with `rest` to come. -/
def openBlock (s : State) (head : Head) (opening : Location) (rest : List Token) : State :=
  { s with tokens := rest, items := [], blocks := ⟨head, opening, s.items⟩ :: s.blocks }

end State

/-- What follows the last token: a lexical failure, or the end of the source at this place. -/
structure Ending where
  failure : Option Error
  place : Location
deriving DecidableEq, Repr

namespace Ending

/-- How the tokens of a source end. -/
def ofSource (source : Text) (failure : Option Error) : Ending := ⟨failure, .endOf source⟩

/-- The error that reading past the last token in a selector raises. -/
def inSelector (e : Ending) : Error := e.failure.getD (.grammar .endInSelector e.place)

/-- The failure that a look at two tokens runs into. -/
def beforeSecond (e : Ending) : List Token → Option Error
  | _ :: _ :: _ => none
  | _ => e.failure

end Ending

/-- Whether a brace comes before the next `;` or closing brace, brackets aside. -/
def startsRule (ending : Ending) (depth : Nat) : List Token → Except Error Bool
  | [] => match ending.failure with
    | some e => .error e
    | none => .ok false
  | t :: ts =>
    if t.isOpener || t.isCloser then startsRule ending (Declaration.depthAfter depth t) ts
    else if depth = 0 && t.isMark '\x7b' then .ok true
    else if depth = 0 && t.isTerminator then .ok false
    else startsRule ending depth ts

/-- Whether a rule in front is really a declaration that lacks its `;`: white space follows the
colon in `color: red .b`, and none in `a:hover`. -/
def runsIntoRule : List Token → Bool
  | key :: colon :: value :: _ =>
    key.kind = .ident && colon.isMark ':' && value.spaced && !value.isMark '\x7b'
  | _ => false

/-- Whether a token can stand between the name of an at-rule and its block. -/
def inCondition (t : Token) : Bool := !(t.isMark '\x7b' || t.isTerminator)

/-- Reads the head of an at-rule after its sign. -/
def stepAtRule (ending : Ending) (s : State) (sign : Token) : List Token → Step
  | [] => .failed (ending.failure.getD (.grammar .missingAtRuleName sign.location))
  | name :: ts =>
    if name.kind ≠ .ident || name.spaced then .failed (.grammar .missingAtRuleName sign.location)
    else
      match ts.dropWhile inCondition with
      | [] => .failed (ending.failure.getD (.grammar (.endInAtRule name.text) sign.location))
      | t :: rest =>
        if t.isMark '\x7b' then
          .next (s.openBlock
            (.atRule
              { kind := .ofName name.text
                name := name.text
                condition := Fragment.ofTokens (ts.takeWhile inCondition)
                location := some (sign.span t) })
            t.location rest)
        else .failed (.grammar (.missingBlock name.text) t.location)

/-- Reads the selectors of a rule that begins with `t`. -/
def stepRule (ending : Ending) (s : State) (t : Token) (ts : List Token) : Step :=
  match Selector.Groups.split ending.inSelector 0 false (t :: ts) with
  | .error e => .failed e
  | .ok g =>
    match g.selectors with
    | .error e => .failed e
    | .ok selectors =>
      .next (s.openBlock (.rule selectors t.location) g.brace.location g.rest)

/-- Reads one item, or the head or the end of one block. -/
def step (ending : Ending) (s : State) : Step :=
  match s.tokens with
  | [] =>
    match ending.failure, s.blocks with
    | some e, _ => .failed e
    | none, b :: _ => .failed (.grammar .unterminatedBlock b.opening)
    | none, [] => .done (Item.contents [] s.items.reverse)
  | t :: ts =>
    if t.isMark '\x7d' then
      match s.blocks with
      | [] => .failed (.grammar .unexpectedBrace t.location)
      | b :: blocks =>
        .next { s with
          tokens := ts
          items := .content (b.head.close s.items.reverse) :: b.before
          blocks := blocks }
    else if t.isMark ';' then .next { s with tokens := ts }
    else if t.isMark '@' then stepAtRule ending s t ts
    else
      match startsRule ending 0 (t :: ts) with
      | .error e => .failed e
      | .ok false =>
        .next (s.addDeclaration (Declaration.readDeclaration t ts))
      | .ok true =>
        -- Telling a rule from a declaration takes a look at three tokens.
        match ending.beforeSecond ts with
        | some e => .failed e
        | none =>
          if runsIntoRule (t :: ts) then
            .next (s.addDeclaration (Declaration.readUnterminated t ts))
          else stepRule ending s t ts

theorem rest_lt_of_split {ending : Error} {depth : Nat} {started : Bool} {ts : List Token}
    {g : Selector.Groups} (h : Selector.Groups.split ending depth started ts = .ok g) :
    g.rest.length < ts.length := by
  induction ts generalizing depth started g with
  | nil => simp [Selector.Groups.split] at h
  | cons t ts ih =>
    have hcons : ∀ {d b}, Selector.Groups.cons t <$> Selector.Groups.split ending d b ts = .ok g →
        g.rest.length < (t :: ts).length := by
      intro d b hg
      cases hs : Selector.Groups.split ending d b ts with
      | error e => rw [hs] at hg; cases hg
      | ok g' =>
        rw [hs] at hg
        cases hg
        have := ih hs
        have hrest : (Selector.Groups.cons t g').rest = g'.rest := by
          unfold Selector.Groups.cons
          split <;> rfl
        rw [hrest]
        simp only [List.length_cons]
        omega
    unfold Selector.Groups.split at h
    split at h
    · cases h
      simp
    split at h
    · exact hcons h
    split at h
    · split at h
      · cases h
      · exact hcons h
    split at h
    · split at h
      · cases hs : Selector.Groups.split ending 0 false ts with
        | error e => rw [hs] at h; cases h
        | ok g' =>
          rw [hs] at h
          cases h
          have := ih hs
          simp only [List.length_cons]
          omega
      · cases h
    · exact hcons h

theorem tokens_lt_of_stepAtRule {ending : Ending} {s s' : State} {sign : Token}
    {ts : List Token} (h : stepAtRule ending s sign ts = .next s') :
    s'.tokens.length < ts.length := by
  unfold stepAtRule at h
  split at h
  · cases h
  · rename_i name ts
    split at h
    · cases h
    · split at h
      · cases h
      · rename_i t rest hd
        split at h
        · injection h with h
          subst h
          have hle := (List.dropWhile_suffix inCondition (l := ts)).length_le
          rw [hd] at hle
          simp only [State.openBlock, List.length_cons] at hle ⊢
          omega
        · cases h

/-- Every step leaves fewer tokens. -/
theorem tokens_lt_of_step {ending : Ending} {s s' : State}
    (h : step ending s = .next s') : s'.tokens.length < s.tokens.length := by
  unfold step at h
  split at h
  · split at h <;> cases h
  · rename_i t ts hts
    rw [hts]
    split at h
    · split at h
      · cases h
      · injection h with h
        subst h
        simp
    split at h
    · injection h with h
      subst h
      simp
    split at h
    · have := tokens_lt_of_stepAtRule h
      simp only [List.length_cons]
      omega
    split at h
    · cases h
    · injection h with h
      subst h
      have := Declaration.rest_le_readDeclaration t ts
      simp only [State.addDeclaration, List.length_cons]
      omega
    · split at h
      · cases h
      · split at h
        · injection h with h
          subst h
          have := Declaration.rest_le_readUnterminated t ts
          simp only [State.addDeclaration, List.length_cons]
          omega
        · unfold stepRule at h
          split at h
          · cases h
          · rename_i hs
            split at h
            · cases h
            · injection h with h
              subst h
              exact rest_lt_of_split hs

/-- What reading a sheet comes to: the malformed declarations recovered from, in order, and the
sheet or the fault that ended the reading. -/
structure Parse where
  recovered : List Declaration
  result : Except Error Sheet

/-- Steps until the sheet is read or a fault is met. The open blocks are kept in the state, and nothing
bounds how deep they nest. -/
def run (ending : Ending) (s : State) : Parse :=
  match h : step ending s with
  | .next s' =>
    have := tokens_lt_of_step h
    run ending s'
  | .done sheet => ⟨s.recovered.reverse, .ok sheet⟩
  | .failed e => ⟨s.recovered.reverse, .error e⟩
termination_by s.tokens.length

/-- Reads a sheet, with an account of what was recovered from. -/
def read (source : Text) : Parse :=
  let stream := Text.tokenize source
  run (.ofSource source stream.failure) { tokens := stream.tokens }

/-- The sheet that a source writes. -/
def parse (source : Text) : Except Error Sheet := (read source).result

end Sheet

/-- Reads a selector list up to the brace after it, which is given too. -/
def Selector.readList (source : Text) : Except Error (List Selector × Token) := do
  let stream := Text.tokenize source
  let ending := Sheet.Ending.ofSource source stream.failure
  let groups ← Groups.split ending.inSelector 0 false stream.tokens
  return (← groups.selectors, groups.brace)

/-- The selector that all of a source writes. -/
def Selector.parse (source : Text) : Except Error Selector :=
  let stream := Text.tokenize source
  match stream.failure with
  | some e => .error e
  | none => ofTokens stream.tokens

end ScopedCss
