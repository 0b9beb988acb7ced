/-
Reading selectors does not look at places: if all tokens are moved to one place, dividing them into
groups (`Groups.split_movedTo`) and reading the groups (`Groups.selectors_movedTo`) come to what
they came to before, moved to that place. Nor does it look at white space in front of the first
token (`Groups.split_unspaced`).
-/
import ScopedCss.Proofs.Except
import ScopedCss.Proofs.Token.Respacing
import ScopedCss.Selector.Parser

namespace ScopedCss

variable (place : Location)

/-! ### Moving what is read -/

def Error.movedTo (e : Error) : Error := { e with location := e.location.map fun _ => place }

def Fragment.movedTo : Fragment → Fragment
  | .placeholder p => .placeholder { p with location := p.location.map fun _ => place }
  | f => f

def Selector.movedTo (s : Selector) : Selector := ⟨s.fragments.map (·.movedTo place)⟩

def Selector.Groups.movedTo (g : Groups) : Groups :=
  { groups := g.groups.map (·.map (·.movedTo place))
    brace := g.brace.movedTo place
    rest := g.rest.map (·.movedTo place) }

/-- What a reading comes to, moved. -/
def moved {α β : Type} (f : α → β) : Except Error α → Except Error β
  | .ok a => .ok (f a)
  | .error e => .error (e.movedTo place)

section

variable {α β γ : Type}

@[simp] theorem moved_ok (f : α → β) (a : α) : moved place f (.ok a) = .ok (f a) := rfl

@[simp] theorem moved_error (f : α → β) (e : Error) :
    moved place f (.error e) = .error (e.movedTo place) := rfl

theorem moved_eq_ok {f : α → β} {x : Except Error α} {b : β} :
    moved place f x = .ok b ↔ ∃ a, x = .ok a ∧ f a = b := by
  cases x <;> simp

@[simp] theorem moved_ite (f : α → β) (c : Prop) [Decidable c] (x y : Except Error α) :
    moved place f (if c then x else y) = if c then moved place f x else moved place f y := by
  split <;> rfl

@[simp] theorem moved_map (f : β → γ) (g : α → β) (x : Except Error α) :
    moved place f (g <$> x) = moved place (fun a => f (g a)) x := by
  cases x <;> rfl

@[simp] theorem map_moved (f : α → β) (g : β → γ) (x : Except Error α) :
    g <$> moved place f x = moved place (fun a => g (f a)) x := by
  cases x <;> rfl

/-- A chain comes to what it came to before, if what follows does. -/
theorem bind_moved {δ : Type} {g : α → γ} {h : β → δ} {k : α → Except Error β}
    {k' : γ → Except Error δ} (hk : ∀ a, k' (g a) = moved place h (k a)) (x : Except Error α) :
    moved place g x >>= k' = moved place h (x >>= k) := by
  cases x with
  | error e => rfl
  | ok a => exact hk a

/-- A traversal comes to what it came to before, if each of its steps does. -/
theorem mapM_moved {δ : Type} {f : α → Except Error β} {f' : γ → Except Error δ} {g : α → γ}
    {h : β → δ} (hf : ∀ a, f' (g a) = moved place h (f a)) (as : List α) :
    (as.map g).mapM f' = moved place (List.map h) (as.mapM f) := by
  induction as with
  | nil => rfl
  | cons a as ih =>
    rw [List.map_cons, List.mapM_cons, List.mapM_cons, hf, ih]
    cases f a with
    | error e => rfl
    | ok b => cases as.mapM f <;> rfl

end

@[simp] theorem Error.movedTo_grammar (fault : GrammarFault) (l : Location) :
    (Error.grammar fault l).movedTo place = .grammar fault place := rfl

namespace Fragment

@[simp] theorem movedTo_literal (t : Text) : (literal t).movedTo place = literal t := rfl

@[simp] theorem movedTo_marker : marker.movedTo place = marker := rfl

@[simp] theorem movedTo_combinator (c : Combinator) :
    (combinator c).movedTo place = combinator c := rfl

@[simp] theorem movedTo_placeholder (name : Text) (l : Location) :
    (placeholder ⟨name, some l⟩).movedTo place = placeholder ⟨name, some place⟩ := rfl

@[simp] theorem isCombinator_movedTo (f : Fragment) :
    (f.movedTo place).isCombinator = f.isCombinator := by
  cases f <;> rfl

end Fragment

@[simp] theorem Combinator.ofToken_movedTo (t : Token) : ofToken (t.movedTo place) = ofToken t := by
  simp [ofToken]

/-! ### Selectors -/

namespace Selector

@[simp] theorem closerOf_movedTo (t : Token) : closerOf (t.movedTo place) = closerOf t := by
  simp [closerOf]

theorem bracketLength_movedTo (opening : Token) (closer : Char) (outer : List Char)
    (ts : List Token) :
    bracketLength (opening.movedTo place) closer outer (ts.map (·.movedTo place)) =
      moved place id (bracketLength opening closer outer ts) := by
  induction ts generalizing closer outer with
  | nil => simp [bracketLength]
  | cons t ts ih => cases outer <;> simp [bracketLength, ih]

theorem argumentLength_movedTo (ts : List Token) :
    argumentLength (ts.map (·.movedTo place)) = moved place id (argumentLength ts) := by
  cases ts <;> simp [argumentLength, bracketLength_movedTo]

theorem pseudoNameLength_movedTo (colon : Token) (ts : List Token) :
    pseudoNameLength (colon.movedTo place) (ts.map (·.movedTo place)) =
      moved place id (pseudoNameLength colon ts) := by
  cases ts <;> simp [pseudoNameLength, argumentLength_movedTo]

theorem pseudoLength_movedTo (colon : Token) (ts : List Token) :
    pseudoLength (colon.movedTo place) (ts.map (·.movedTo place)) =
      moved place id (pseudoLength colon ts) := by
  cases ts with
  | nil => rfl
  | cons t ts =>
    have hname := pseudoNameLength_movedTo place colon (t :: ts)
    rw [List.map_cons] at hname
    simp [pseudoLength, pseudoNameLength_movedTo, hname]

theorem nameLength_movedTo (t : Token) (ts : List Token) :
    nameLength (t.movedTo place) (ts.map (·.movedTo place)) = moved place id (nameLength t ts) := by
  cases ts <;> simp [nameLength]

theorem simpleLength_movedTo (t : Token) (ts : List Token) :
    simpleLength (t.movedTo place) (ts.map (·.movedTo place)) =
      moved place id (simpleLength t ts) := by
  simp [simpleLength, bracketLength_movedTo, nameLength_movedTo, pseudoLength_movedTo]

theorem gap_movedTo (previous : Option Fragment) (t : Token) :
    gap (previous.map (·.movedTo place)) (t.movedTo place) =
      (gap previous t).map (·.movedTo place) := by
  cases previous with
  | none => rfl
  | some f =>
    simp only [Option.map_some, gap, Token.spaced_movedTo, Fragment.isCombinator_movedTo]
    split <;> rfl

theorem any_isCombinator_movedTo (previous : Option Fragment) :
    (previous.map (·.movedTo place)).any (·.isCombinator) = previous.any (·.isCombinator) := by
  cases previous <;> simp

theorem fragmentsAfter_movedTo (previous : Option Fragment) (tokens : List Token) :
    fragmentsAfter (previous.map (·.movedTo place)) (tokens.map (·.movedTo place)) =
      moved place (List.map (·.movedTo place)) (fragmentsAfter previous tokens) := by
  fun_induction fragmentsAfter previous tokens with
  | case1 => simp [fragmentsAfter]
  | case2 previous t ts hmark hprevious =>
    rw [List.map_cons, fragmentsAfter]
    simp [hmark, hprevious, any_isCombinator_movedTo]
  | case3 previous t ts hmark hprevious hts =>
    rw [List.map_cons, fragmentsAfter]
    simp [hmark, hprevious, any_isCombinator_movedTo, List.isEmpty_iff.1 hts]
  | case4 previous t ts hmark hprevious hts fragment ih =>
    rw [List.map_cons, fragmentsAfter]
    rw [Option.map_some, Fragment.movedTo_combinator] at ih
    simp [hmark, hprevious, any_isCombinator_movedTo, hts, ih, fragment]
  | case5 previous t ts hmark hmarker ih =>
    rw [List.map_cons, fragmentsAfter]
    rw [Option.map_some, Fragment.movedTo_marker] at ih
    simp [hmark, hmarker, gap_movedTo, ih]
  | case6 previous t ts hmark hmarker hkind fragment ih =>
    rw [List.map_cons, fragmentsAfter]
    rw [Option.map_some, Fragment.movedTo_placeholder] at ih
    simp [hmark, hmarker, hkind, gap_movedTo, ih, fragment]
  | case7 previous t ts hmark hmarker hkind e hsimple =>
    rw [List.map_cons, fragmentsAfter]
    simp [hmark, hmarker, hkind, simpleLength_movedTo, hsimple]
  | case8 previous t ts hmark hmarker hkind n hsimple fragment ih =>
    have hjoin : Token.join (t.movedTo place :: (ts.map (·.movedTo place)).take n) =
        Token.join (t :: ts.take n) := by
      rw [← List.map_take, ← List.map_cons, Token.join_movedTo]
    rw [Option.map_some, Fragment.movedTo_literal, List.map_drop] at ih
    rw [List.map_cons, fragmentsAfter]
    simp [hmark, hmarker, hkind, simpleLength_movedTo, hsimple, gap_movedTo, hjoin, ih, fragment]

theorem ofTokens_movedTo (tokens : List Token) :
    ofTokens (tokens.map (·.movedTo place)) = moved place (movedTo place) (ofTokens tokens) := by
  have h := fragmentsAfter_movedTo place none tokens
  rw [Option.map_none] at h
  simp [ofTokens, h, movedTo]

namespace Groups

@[simp] theorem movedTo_mk (groups : List (List Token)) (brace : Token) (rest : List Token) :
    movedTo place ⟨groups, brace, rest⟩ =
      ⟨groups.map (List.map (Token.movedTo place)), brace.movedTo place,
        rest.map (Token.movedTo place)⟩ := rfl

@[simp] theorem groups_movedTo (g : Groups) :
    (g.movedTo place).groups = g.groups.map (List.map (Token.movedTo place)) := rfl

@[simp] theorem brace_movedTo (g : Groups) : (g.movedTo place).brace = g.brace.movedTo place := rfl

@[simp] theorem rest_movedTo (g : Groups) :
    (g.movedTo place).rest = g.rest.map (Token.movedTo place) := rfl

theorem cons_movedTo (t : Token) (g : Groups) :
    cons (t.movedTo place) (g.movedTo place) = (cons t g).movedTo place := by
  cases g with
  | mk groups brace rest => cases groups <;> rfl

theorem split_movedTo (ending : Error) (depth : Nat) (started : Bool) (ts : List Token) :
    split (ending.movedTo place) depth started (ts.map (·.movedTo place)) =
      moved place (movedTo place) (split ending depth started ts) := by
  induction ts generalizing depth started with
  | nil => rfl
  | cons t ts ih =>
    simp [split, ih, cons_movedTo]

theorem selectors_movedTo (g : Groups) :
    (g.movedTo place).selectors = moved place (List.map (·.movedTo place)) g.selectors := by
  have hempty : (g.groups.map (List.map (Token.movedTo place))).getLast? = some [] ↔
      g.groups.getLast? = some [] := by
    rw [List.getLast?_map]
    cases g.groups.getLast? <;> simp
  have hread := mapM_moved place (ofTokens_movedTo place) g.groups
  simp only [selectors, movedTo, moved_ite, moved_error, hempty, List.length_map, hread]
  rfl

end Groups

end Selector

/-! ### White space in front -/

namespace Token

@[simp] theorem isMark_unspaced (t : Token) (c : Char) : t.unspaced.isMark c = t.isMark c := by
  cases t
  rfl

@[simp] theorem isOpener_unspaced (t : Token) : t.unspaced.isOpener = t.isOpener := by
  cases t
  rfl

@[simp] theorem isCloser_unspaced (t : Token) : t.unspaced.isCloser = t.isCloser := by
  cases t
  rfl

end Token

namespace Selector

theorem bracketLength_unspaced (opening : Token) (closer : Char) (outer : List Char)
    (ts : List Token) :
    bracketLength opening.unspaced closer outer ts = bracketLength opening closer outer ts := by
  induction ts generalizing closer outer with
  | nil => rfl
  | cons t ts ih => cases outer <;> simp only [bracketLength, ih]

theorem pseudoLength_unspaced (colon : Token) (ts : List Token) :
    pseudoLength colon.unspaced ts = pseudoLength colon ts := by
  have hname : ∀ ts, pseudoNameLength colon.unspaced ts = pseudoNameLength colon ts := fun ts => by
    cases ts <;> rfl
  cases ts <;> simp only [pseudoLength, hname]

theorem simpleLength_unspaced (t : Token) (ts : List Token) :
    simpleLength t.unspaced ts = simpleLength t ts := by
  have hname : nameLength t.unspaced ts = nameLength t ts := by cases ts <;> rfl
  simp only [simpleLength, Token.isOpener_unspaced, Token.isMark_unspaced, bracketLength_unspaced,
    hname, pseudoLength_unspaced]
  rfl

/-- White space in front of a selector is no part of it. -/
theorem ofTokens_unspaced (t : Token) (ts : List Token) :
    ofTokens (t.unspaced :: ts) = ofTokens (t :: ts) := by
  rw [ofTokens, ofTokens, fragmentsAfter, fragmentsAfter, simpleLength_unspaced]
  rfl

namespace Groups

theorem selectors_cons_unspaced (t : Token) (g : Groups) :
    (cons t.unspaced g).selectors = (cons t g).selectors := by
  obtain ⟨groups, brace, rest⟩ := g
  match groups with
  | [] => simp [selectors, cons, ofTokens_unspaced]
  | [first] => simp [selectors, cons, ofTokens_unspaced]
  | first :: second :: others => simp [selectors, cons, ofTokens_unspaced, List.getLast?_cons_cons]

/-- White space in front of a selector list changes none of its selectors. -/
theorem split_unspaced (ending : Error) (t : Token) (ts : List Token) :
    (fun g => (g.selectors, g.brace.location, g.rest)) <$> split ending 0 false (t.unspaced :: ts) =
      (fun g => (g.selectors, g.brace.location, g.rest)) <$> split ending 0 false (t :: ts) := by
  have hcons : ∀ x : Except Error Groups,
      (fun g => (g.selectors, g.brace.location, g.rest)) <$> (cons t.unspaced <$> x) =
        (fun g => (g.selectors, g.brace.location, g.rest)) <$> (cons t <$> x) := by
    intro x
    cases x with
    | error e => rfl
    | ok g =>
      simp only [map_ok, selectors_cons_unspaced]
      obtain ⟨groups, brace, rest⟩ := g
      cases groups <;> rfl
  simp only [split, Token.isMark_unspaced, Token.isOpener_unspaced, Token.isCloser_unspaced]
  split
  · rfl
  split
  · exact hcons _
  split
  · rfl
  split
  · rfl
  · exact hcons _

end Groups

end Selector

end ScopedCss
