/-
Reading selectors with nothing taken for granted. Where reading relies on something to be there (a
closer for a bracket, a bracket that is awaited, a last token, a group to add to), the checked
reading looks, and slips if it is missing.

It never slips: `matching_eq`, `fragments_eq`, `groups_eq` and `selectors_eq` say that it reads what
`Selector` reads, and fails where `Selector` fails.
-/
import ScopedCss.Proofs.Selector.Faults
import ScopedCss.Proofs.Selector.Reading

namespace ScopedCss

/-- A token is one mark at most. -/
theorem Token.isMark_eq_false {t : Token} {c d : Char} (h : t.isMark c = true) (hne : c ≠ d) :
    t.isMark d = false := by
  simp only [Token.isMark, Bool.and_eq_true, decide_eq_true_eq] at h
  simp [Token.isMark, h.2, hne]

/-- Why a checked reading stops: for a fault of the source, or for want of what it relies on. -/
inductive Stop where
  | fault (e : Error)
  | slip
deriving DecidableEq, Repr

/-- A reading that looks at whatever it relies on. -/
abbrev Checked (α : Type) := Except Stop α

namespace Checked

section

variable {α β : Type}

/-- A reading that relies on nothing. -/
def sure : Except Error α → Checked α
  | .ok a => .ok a
  | .error e => .error (.fault e)

/-- What is relied on to be there. -/
def expect : Option α → Checked α
  | some a => .ok a
  | none => .error .slip

/-- What is relied on to hold. -/
def require (b : Bool) : Checked Unit := if b then .ok () else .error .slip

/-- The elements and the last of them, which is relied on. -/
def expectLast (as : List α) : Checked (List α × α) := (as.dropLast, ·) <$> expect as.getLast?

def fault (f : GrammarFault) (l : Location) : Checked α := .error (.fault (.grammar f l))

@[simp] theorem sure_ok (a : α) : sure (.ok a) = .ok a := rfl

@[simp] theorem sure_error (e : Error) : sure (.error e : Except Error α) = .error (.fault e) := rfl

@[simp] theorem sure_map (f : α → β) (x : Except Error α) : sure (f <$> x) = f <$> sure x := by
  cases x <;> rfl

@[simp] theorem sure_bind (x : Except Error α) (f : α → Except Error β) :
    sure (x >>= f) = sure x >>= fun a => sure (f a) := by
  cases x <;> rfl

@[simp] theorem expect_some (a : α) : expect (some a) = .ok a := rfl

@[simp] theorem map_fault (g : α → β) (f : GrammarFault) (l : Location) :
    g <$> (fault f l : Checked α) = fault f l := rfl

@[simp] theorem expectLast_concat (as : List α) (a : α) : expectLast (as ++ [a]) = .ok (as, a) := by
  simp [expectLast]

end

open Selector (gap)

/-- The bracket that closes the one with this text. -/
def closerOf (text : Text) : Checked Char :=
  if text = ['('] then .ok ')' else if text = ['['] then .ok ']' else .error .slip

/-- How many tokens go up to the bracket that closes `opening`, that bracket included; the brackets
of `awaited` are due in order. -/
def bracketLength (opening : Token) (awaited : List Char) : List Token → Checked Nat
  | [] => fault (.unclosedBracket opening.text) opening.location
  | t :: ts =>
    if t.isOpener then do
      let closer ← closerOf t.text
      (· + 1) <$> bracketLength opening (closer :: awaited) ts
    else if t.isCloser then
      match awaited with
      | [] => .error .slip
      | closer :: outer =>
        if t.text ≠ [closer] then fault .mismatchedBracket t.location
        else if outer.isEmpty then .ok 1
        else (· + 1) <$> bracketLength opening outer ts
    else (· + 1) <$> bracketLength opening awaited ts

/-- How many tokens of `ts` go up to the bracket that closes `opening`. -/
def matching (opening : Token) (ts : List Token) : Checked Nat := do
  let closer ← closerOf opening.text
  bracketLength opening [closer] ts

def argumentLength : List Token → Checked Nat
  | [] => .ok 0
  | t :: ts => if t.isMark '(' && !t.spaced then (· + 1) <$> matching t ts else .ok 0

def pseudoNameLength (colon : Token) : List Token → Checked Nat
  | [] => fault .missingPseudoClass colon.location
  | t :: ts =>
    if t.kind = .ident && !t.spaced then (· + 1) <$> argumentLength ts
    else fault .missingPseudoClass colon.location

def pseudoLength (colon : Token) : List Token → Checked Nat
  | [] => pseudoNameLength colon []
  | t :: ts =>
    if t.isMark ':' && !t.spaced then (· + 1) <$> pseudoNameLength colon ts
    else pseudoNameLength colon (t :: ts)

/-- How many tokens of `ts` belong to the simple selector that begins with `t`. -/
def simpleLength (t : Token) (ts : List Token) : Checked Nat :=
  if t.isOpener then matching t ts
  else if t.isMark '.' || t.isMark '#' then sure (Selector.nameLength t ts)
  else if t.isMark ':' then pseudoLength t ts
  else .ok 0

/-- Reads the rest of the selector that `tokens` write, behind the fragments `done`. A descendant
combinator gives way to one that is written out. -/
def fragments (tokens : List Token) (done : List Fragment) (rest : List Token) :
    Checked (List Fragment) :=
  match rest with
  | [] =>
    if done.getLast?.any (·.isCombinator) then do
      let last ← expect tokens.getLast?
      fault .trailingCombinator last.location
    else .ok done
  | t :: ts =>
    if t.isCombinator then
      if done.getLast?.any (·.isCombinator) then
        if done.getLast? = some (.combinator .descendant) then
          fragments tokens (done.dropLast ++ [.combinator (.ofToken t)]) ts
        else fault .consecutiveCombinators t.location
      else fragments tokens (done ++ [.combinator (.ofToken t)]) ts
    else if t.isMark '&' then
      fragments tokens (done ++ (gap done.getLast? t ++ [.marker])) ts
    else if t.kind = .placeholder then
      fragments tokens
        (done ++ (gap done.getLast? t ++ [.placeholder ⟨t.value, some t.location⟩])) ts
    else do
      let n ← simpleLength t ts
      fragments tokens
        (done ++ (gap done.getLast? t ++ [.literal (Token.join (t :: ts.take n))])) (ts.drop n)
termination_by rest.length

/-- The selector that `tokens` write. -/
def selector (tokens : List Token) : Checked Selector := Selector.mk <$> fragments tokens [] tokens

/-- The bracket depth after a token of a selector. -/
def depthAfter (depth : Nat) (t : Token) : Checked Nat :=
  if t.isOpener then .ok (depth + 1)
  else if t.isCloser then
    if depth = 0 then fault (.strayBracket t.text) t.location else .ok (depth - 1)
  else .ok depth

/-- Divides a selector list at its commas, behind the groups `done`, and gives the tokens from the
brace on. -/
def groups (ending : Error) (done : List (List Token)) (depth : Nat) :
    List Token → Checked (List (List Token) × List Token)
  | [] => .error (.fault ending)
  | t :: ts =>
    if depth = 0 && t.isMark '\x7b' then .ok (done, t :: ts)
    else do
      let depth ← depthAfter depth t
      let (others, last) ← expectLast done
      if depth = 0 && t.isMark ',' then
        if last.isEmpty then fault .emptySelector t.location
        else groups ending (done ++ [[]]) depth ts
      else groups ending (others ++ [last ++ [t]]) depth ts

/-- Reads a selector list, and gives the tokens from the brace on. -/
def selectors (ending : Error) (ts : List Token) : Checked (List Selector × List Token) := do
  let (groups, rest) ← groups ending [[]] 0 ts
  let (_, last) ← expectLast groups
  if last.isEmpty then
    let brace ← expect rest.head?
    fault (if groups.length = 1 then .missingSelector else .emptySelector) brace.location
  else
    let selectors ← groups.mapM selector
    return (selectors, rest)

/-! ## No reading of a selector slips -/

theorem closerOf_eq {t : Token} (h : t.isOpener = true) :
    closerOf t.text = .ok (Selector.closerOf t) := by
  simp only [Token.isOpener, Token.isMark, Bool.or_eq_true, Bool.and_eq_true,
    decide_eq_true_eq] at h
  rcases h with ⟨hkind, htext⟩ | ⟨hkind, htext⟩ <;>
    simp [closerOf, Selector.closerOf, Token.isMark, hkind, htext]

/-- A bracket that closes is the one awaited if its text is. -/
theorem isMark_of_isCloser {t : Token} (h : t.isCloser = true) (c : Char) :
    t.isMark c = decide (t.text = [c]) := by
  simp only [Token.isCloser, Token.isMark, Bool.or_eq_true, Bool.and_eq_true,
    decide_eq_true_eq] at h
  have hkind : t.kind = .punct := by
    rcases h with h | h
    · exact h.1
    · exact h.1
  simp [Token.isMark, hkind]

/-- A bracket is awaited for as long as the search goes on, so none is taken from an empty stack. -/
theorem bracketLength_eq (opening : Token) (closer : Char) (outer : List Char) (ts : List Token) :
    bracketLength opening (closer :: outer) ts =
      sure (Selector.bracketLength opening closer outer ts) := by
  induction ts generalizing closer outer with
  | nil => rfl
  | cons t ts ih =>
    simp only [bracketLength, Selector.bracketLength]
    by_cases hopener : t.isOpener = true
    · simp only [hopener, if_true, closerOf_eq hopener, ok_bind, ih, sure_map]
    · by_cases hcloser : t.isCloser = true
      · simp only [hopener, hcloser, if_true, isMark_of_isCloser hcloser]
        by_cases htext : t.text = [closer]
        · cases outer with
          | nil => simp [htext]
          | cons c outer => simp [htext, ih]
        · simp [htext, fault]
      · simp [hopener, hcloser, ih]

theorem matching_eq {t : Token} (h : t.isOpener = true) (ts : List Token) :
    matching t ts = sure (Selector.bracketLength t (Selector.closerOf t) [] ts) := by
  simp only [matching, closerOf_eq h, ok_bind, bracketLength_eq]

theorem argumentLength_eq (ts : List Token) :
    argumentLength ts = sure (Selector.argumentLength ts) := by
  cases ts with
  | nil => rfl
  | cons t ts =>
    simp only [argumentLength, Selector.argumentLength]
    by_cases hparen : t.isMark '(' = true
    · have hopener : t.isOpener = true := by simp [Token.isOpener, hparen]
      have hcloser : Selector.closerOf t = ')' := by
        simp only [Token.isMark, Bool.and_eq_true, decide_eq_true_eq] at hparen
        simp [Selector.closerOf, Token.isMark, hparen]
      rw [matching_eq hopener, hcloser]
      split <;> simp
    · simp [hparen]

theorem pseudoNameLength_eq (colon : Token) (ts : List Token) :
    pseudoNameLength colon ts = sure (Selector.pseudoNameLength colon ts) := by
  cases ts with
  | nil => rfl
  | cons t ts =>
    simp only [pseudoNameLength, Selector.pseudoNameLength, argumentLength_eq]
    split <;> simp [fault]

theorem pseudoLength_eq (colon : Token) (ts : List Token) :
    pseudoLength colon ts = sure (Selector.pseudoLength colon ts) := by
  cases ts with
  | nil => exact pseudoNameLength_eq colon []
  | cons t ts =>
    simp only [pseudoLength, Selector.pseudoLength, pseudoNameLength_eq]
    split <;> simp

theorem simpleLength_eq (t : Token) (ts : List Token) :
    simpleLength t ts = sure (Selector.simpleLength t ts) := by
  unfold simpleLength Selector.simpleLength
  split
  · rename_i hopener
    exact matching_eq hopener ts
  split
  · rfl
  split
  · exact pseudoLength_eq t ts
  · rfl

theorem ofToken_ne_descendant (t : Token) : Combinator.ofToken t ≠ .descendant := by
  unfold Combinator.ofToken
  split
  · simp
  · split <;> simp

/-- The fragments read so far never end in a descendant combinator, and they end in another one only
if tokens are left to read. -/
theorem fragments_eq {tokens : List Token} {done : List Fragment} {rest : List Token}
    (hrest : rest <:+ tokens) (hlast : done.getLast? ≠ some (.combinator .descendant))
    (hend : rest = [] → done.getLast?.any (·.isCombinator) = false) :
    fragments tokens done rest =
      sure ((done ++ ·) <$> Selector.fragmentsAfter done.getLast? rest) := by
  fun_induction fragments tokens done rest with
  | case1 done hcombinator => simp [hend rfl] at hcombinator
  | case2 done _ => simp [Selector.fragmentsAfter]
  | case3 done t ts _ _ hdescendant => exact absurd hdescendant hlast
  | case4 done t ts hmark hprevious _ =>
    rw [Selector.fragmentsAfter]
    simp [hmark, hprevious, fault]
  | case5 done t ts hmark hprevious ih =>
    rw [Selector.fragmentsAfter]
    simp only [hmark, if_true, hprevious]
    by_cases hts : ts = []
    · -- the loop sees one step later that nothing follows the combinator
      subst hts
      obtain ⟨front, rfl⟩ := hrest
      simp [fragments, Fragment.isCombinator, fault]
    · rw [ih ((List.suffix_cons t ts).trans hrest) (by simp [ofToken_ne_descendant]) (absurd · hts)]
      simp [hts]
  | case6 done t ts hmark hmarker ih =>
    rw [Selector.fragmentsAfter]
    simp only [hmark, hmarker, if_true]
    rw [ih ((List.suffix_cons t ts).trans hrest) (by simp) (by simp [Fragment.isCombinator])]
    simp
  | case7 done t ts hmark hmarker hkind ih =>
    rw [Selector.fragmentsAfter]
    simp only [hmark, hmarker, hkind, if_true]
    rw [ih ((List.suffix_cons t ts).trans hrest) (by simp) (by simp [Fragment.isCombinator])]
    simp
  | case8 done t ts hmark hmarker hkind ih =>
    rw [Selector.fragmentsAfter, simpleLength_eq]
    simp only [hmark, hmarker, hkind]
    cases hsimple : Selector.simpleLength t ts with
    | error e => simp
    | ok n =>
      have hdrop : ts.drop n <:+ tokens :=
        (List.drop_suffix n ts).trans ((List.suffix_cons t ts).trans hrest)
      simp only [sure_ok, ok_bind]
      rw [ih n hdrop (by simp) (by simp [Fragment.isCombinator])]
      simp

theorem selector_eq (tokens : List Token) : selector tokens = sure (Selector.ofTokens tokens) := by
  unfold selector Selector.ofTokens
  rw [fragments_eq List.suffix_rfl (by simp) (by simp)]
  simp

/-- Groups behind others: the tokens at hand go in front of the first group. -/
def behind (last : List Token) : List (List Token) → List (List Token)
  | [] => [last]
  | first :: others => (last ++ first) :: others

@[simp] theorem behind_group (last first : List Token) (others : List (List Token)) :
    behind last (first :: others) = (last ++ first) :: others := rfl

theorem behind_cons (last : List Token) (t : Token) (g : Selector.Groups) :
    behind last (Selector.Groups.cons t g).groups = behind (last ++ [t]) g.groups := by
  unfold Selector.Groups.cons
  split <;> simp_all [behind]

theorem behind_nil {groups : List (List Token)} (h : groups ≠ []) : behind [] groups = groups := by
  cases groups with
  | nil => exact absurd rfl h
  | cons first others => rfl

theorem mapM_selector (gs : List (List Token)) :
    gs.mapM selector = sure (gs.mapM Selector.ofTokens) := by
  induction gs with
  | nil => rfl
  | cons g gs ih => simp only [List.mapM_cons, selector_eq, ih, sure_bind]; rfl

theorem groups_ne_nil {ending : Error} {depth : Nat} {started : Bool} {ts : List Token}
    {g : Selector.Groups} (h : Selector.Groups.split ending depth started ts = .ok g) :
    g.groups ≠ [] := by
  intro hnil
  have hseparated := Selector.Groups.separated_of_split h
  rw [hnil] at hseparated
  exact hseparated

/-- There is always a group to add to. -/
theorem groups_eq (ending : Error) (others : List (List Token)) (last : List Token) (depth : Nat)
    (ts : List Token) :
    groups ending (others ++ [last]) depth ts =
      sure ((fun g => (others ++ behind last g.groups, g.brace :: g.rest)) <$>
        Selector.Groups.split ending depth (!last.isEmpty) ts) := by
  induction ts generalizing others last depth with
  | nil => rfl
  | cons t ts ih =>
    -- a token that is no comma goes to the last group
    have hadd : ∀ d, groups ending (others ++ [last ++ [t]]) d ts =
        sure ((fun g => (others ++ behind last g.groups, g.brace :: g.rest)) <$>
          (Selector.Groups.cons t <$> Selector.Groups.split ending d true ts)) := by
      intro d
      have hstarted : (last ++ [t]).isEmpty = false := by simp
      rw [ih, hstarted]
      simp [behind_cons]
    simp only [groups, Selector.Groups.split, depthAfter]
    by_cases hbrace : (decide (depth = 0) && t.isMark '\x7b') = true
    · rw [if_pos hbrace, if_pos hbrace]
      simp [behind]
    rw [if_neg hbrace, if_neg hbrace]
    by_cases hopener : t.isOpener = true
    · simp [hopener, hadd]
    rw [if_neg hopener, if_neg hopener]
    by_cases hcloser : t.isCloser = true
    · have hcomma : t.isMark ',' = false := by
        simp only [Token.isCloser, Bool.or_eq_true] at hcloser
        rcases hcloser with h | h <;> exact Token.isMark_eq_false h (by decide)
      by_cases hdepth : depth = 0
      · simp [hcloser, hdepth, fault]
      · simp [hcloser, hdepth, hcomma, hadd]
    rw [if_neg hcloser, if_neg hcloser]
    simp only [ok_bind, expectLast_concat]
    by_cases hcomma : (decide (depth = 0) && t.isMark ',') = true
    · rw [if_pos hcomma, if_pos hcomma]
      rw [Bool.and_eq_true, decide_eq_true_eq] at hcomma
      cases last with
      | nil => rfl
      | cons u us =>
        have hnext := ih (others ++ [u :: us]) [] depth
        simp only [hcomma.1, List.isEmpty_nil, Bool.not_true] at hnext
        simp only [hcomma.1, hnext, List.isEmpty_cons, Bool.not_false, if_true, Bool.false_eq_true,
          if_false]
        cases hsplit : Selector.Groups.split ending 0 false ts with
        | error e => rfl
        | ok g => simp [behind_nil (groups_ne_nil hsplit)]
    · rw [if_neg hcomma, if_neg hcomma, hadd]

theorem selectors_eq (ending : Error) (ts : List Token) :
    selectors ending ts = sure (do
      let g ← Selector.Groups.split ending 0 false ts
      let selectors ← g.selectors
      return (selectors, g.brace :: g.rest)) := by
  have hgroups := groups_eq ending [] [] 0 ts
  simp only [List.nil_append, List.isEmpty_nil, Bool.not_true] at hgroups
  simp only [selectors, hgroups]
  cases hsplit : Selector.Groups.split ending 0 false ts with
  | error e => rfl
  | ok g =>
    have hne := groups_ne_nil hsplit
    obtain ⟨others, last, hlast⟩ := (List.eq_nil_or_concat' g.groups).resolve_left hne
    simp only [map_ok, sure_ok, ok_bind, behind_nil hne, Selector.Groups.selectors]
    rw [hlast]
    simp only [expectLast_concat, ok_bind, mapM_selector, List.getLast?_concat, Option.some.injEq]
    cases last with
    | nil => simp [fault]
    | cons t ts => simp

end Checked

end ScopedCss
