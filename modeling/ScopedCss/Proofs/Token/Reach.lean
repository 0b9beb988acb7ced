/-
How far a lexeme reaches. A lexeme is the longest front part of its kind, so where it ends depends
on the text behind it, but only on whether that text goes on in the same way.

`Lexeme.Alike` is what two texts must have in common for this: they begin alike, and where they part
the second one is `Text.Apart`, so that no lexeme reaches into it. Then a lexeme that stands in front
of the one is also read in front of the other (`Lexeme.Alike.read`).
-/
import Mathlib.Data.List.TakeWhile
import ScopedCss.Proofs.Token.Tiling

namespace ScopedCss

open Lexeme

/-- The characters that some lexeme in front of them may take in, or take as a sign to go on. -/
def Lexeme.isExtending (c : Char) : Bool := isIdentPart c || "\\%*+(\x7b".toList.contains c

/-- A text that no lexeme in front of it reaches into, whatever the lexeme is. -/
def Text.Apart (t : Text) : Prop :=
  t.head?.any isExtending = false ∧ startsUnsigned t = false

instance (t : Text) : Decidable t.Apart := inferInstanceAs (Decidable (_ ∧ _))

namespace Lexeme

/-- Whether `c` escapes the character behind it: a backslash does, unless it is escaped itself. -/
def escapes (escaped : Bool) (c : Char) : Bool := !escaped && c = '\\'

/-- Whether the last character of `x` escapes the one behind it; the first may be `escaped`. -/
def escapesAfter (escaped : Bool) (x : Text) : Bool := x.foldl escapes escaped

theorem escapes_of_ne (e : Bool) {c : Char} (hc : c ≠ '\\') : escapes e c = false := by
  simp [escapes, hc]

theorem escapesAfter_cons (e : Bool) (c : Char) (x : Text) :
    escapesAfter e (c :: x) = escapesAfter (escapes e c) x := rfl

theorem escapesAfter_append (e : Bool) (x y : Text) :
    escapesAfter e (x ++ y) = escapesAfter (escapesAfter e x) y :=
  List.foldl_append

theorem escapesAfter_concat (e : Bool) (x : Text) {c : Char} (hc : c ≠ '\\') :
    escapesAfter e (x ++ [c]) = false := by
  rw [escapesAfter_append]
  exact escapes_of_ne _ hc

/-- A relation between texts that begin alike and between what follows in both; where they part, the
second one is apart. They do not part where the next character is `escaped`, unless the second one
ends there. -/
structure Alike (R : (escaped : Bool) → (s n : Text) → Prop) : Prop where
  char : ∀ {e : Bool} (c : Char) {s n : Text}, R (escapes e c) s n → R e (c :: s) (c :: n)
  front : ∀ {e : Bool} {s n : Text}, R e s n →
    (∃ c s' n', s = c :: s' ∧ n = c :: n' ∧ R (escapes e c) s' n') ∨
      n.Apart ∧ (e = true → n = [])

/-- A text and one that it begins with. -/
theorem alike_front : Alike fun _ s n => n <+: s where
  char c _ _ h := List.cons_prefix_cons.2 ⟨rfl, h⟩
  front {e s n} h := by
    cases n with
    | nil => exact .inr ⟨by decide, fun _ => rfl⟩
    | cons c n =>
      obtain ⟨r, rfl⟩ := h
      exact .inl ⟨c, n ++ r, n, rfl, rfl, n.prefix_append r⟩

/-! ### Looking ahead -/

theorem startsDigit_eq (t : Text) : startsDigit t = t.head?.any Char.isDigit := by
  cases t <;> rfl

theorem startsEscape_cons {c : Char} (hc : c ≠ '\\') (t : Text) :
    startsEscape (c :: t) = false := by
  unfold startsEscape
  split
  · rename_i heq
    exact absurd (List.cons.inj heq).1 hc
  · rfl

theorem exists_of_startsEscape {t : Text} (h : startsEscape t = true) :
    ∃ d r, t = '\\' :: d :: r ∧ isEscapable d = true := by
  unfold startsEscape at h
  split at h
  · exact ⟨_, _, rfl, h⟩
  · cases h

theorem startsIdent_cons (c : Char) (t : Text) :
    startsIdent (c :: t) =
      if c = '-' then t.head?.any (fun d => isIdentStart d || d = '-') || startsEscape t
      else if c = '\\' then startsEscape (c :: t) else isIdentStart c := by
  cases t <;> rfl

theorem startsUnsigned_cons (c : Char) (t : Text) :
    startsUnsigned (c :: t) = if c = '.' then startsDigit t else c.isDigit := by
  unfold startsUnsigned
  split
  · rename_i u heq
    obtain ⟨rfl, rfl⟩ := List.cons.inj heq
    rfl
  · rename_i hne
    rw [if_neg fun hc => hne t (by rw [hc])]
    rfl

theorem startsComment_cons (c : Char) (t : Text) :
    startsComment (c :: t) = (c = '/' && t.head?.any (· = '*')) := by
  unfold startsComment
  split
  · rename_i u heq
    obtain ⟨rfl, rfl⟩ := List.cons.inj heq
    rfl
  · rename_i hne
    cases t with
    | nil => simp
    | cons d t =>
      simp only [List.head?_cons, Option.any_some]
      by_cases hc : c = '/'
      · subst hc
        have hd : d ≠ '*' := fun hd => hne t (by rw [hd])
        simp [hd]
      · simp [hc]

end Lexeme

/-- A text in which every backslash that escapes something has it behind it. -/
def Text.Whole (x : Text) : Prop := escapesAfter false x = false

namespace Text.Whole

theorem nil : Whole [] := rfl

theorem append {x y : Text} (hx : x.Whole) (hy : y.Whole) : Whole (x ++ y) := by
  rw [Whole, escapesAfter_append, hx, hy]

theorem cons {c : Char} (hc : c ≠ '\\') {x : Text} (hx : x.Whole) : Whole (c :: x) := by
  rw [Whole, escapesAfter_cons, escapes_of_ne _ hc, hx]

theorem escape (d : Char) {x : Text} (hx : x.Whole) : Whole ('\\' :: d :: x) := hx

theorem concat (x : Text) {c : Char} (hc : c ≠ '\\') : Whole (x ++ [c]) :=
  escapesAfter_concat false x hc

theorem of_getLast? {x : Text} (h : x.getLast? ≠ some '\\') : x.Whole := by
  rcases List.eq_nil_or_concat' x with rfl | ⟨u, c, rfl⟩
  · exact nil
  · exact concat u (by simpa using h)

theorem of_forall {x : Text} (h : ∀ c ∈ x, c ≠ '\\') : x.Whole := by
  refine of_getLast? fun hlast => ?_
  exact h _ (List.mem_of_getLast? hlast) rfl

end Text.Whole

namespace Text.Apart

variable {t : Text}

/-- What a text that is apart does not begin with. -/
theorem head?_any (h : t.Apart) {p : Char → Bool}
    (hp : ∀ c, p c = true → isExtending c = true) :
    t.head?.any p = false := by
  have hhead := h.1
  cases t with
  | nil => rfl
  | cons c t =>
    rw [List.head?_cons, Option.any_some] at hhead ⊢
    exact Bool.eq_false_iff.2 fun hc => Bool.eq_false_iff.1 hhead (hp c hc)

theorem startsDigit (h : t.Apart) : startsDigit t = false := by
  rw [startsDigit_eq]
  exact h.head?_any fun c hc => by simp [isExtending, isIdentPart, hc]

theorem head?_ne (h : t.Apart) {d : Char} (hd : isExtending d = true) : t.head? ≠ some d := by
  intro heq
  have hany := h.head?_any (p := (· = d)) fun c hc => by rwa [of_decide_eq_true hc]
  simp [heq] at hany

theorem ne {c d : Char} (h : Apart (c :: t)) (hd : isExtending d = true) : c ≠ d :=
  fun hc => h.head?_ne hd (by rw [hc]; rfl)

theorem startsEscape (h : t.Apart) : startsEscape t = false := by
  cases t with
  | nil => rfl
  | cons c t => exact startsEscape_cons (h.ne (by decide)) t

theorem startsIdent (h : t.Apart) : startsIdent t = false := by
  cases t with
  | nil => rfl
  | cons c t =>
    have hstart := h.head?_any (p := isIdentStart) fun c hc => by simp [isExtending, isIdentPart, hc]
    rw [startsIdent_cons, if_neg (h.ne (by decide)), if_neg (h.ne (by decide))]
    simpa using hstart

end Text.Apart

namespace Lexeme

namespace Alike

variable {R : Bool → Text → Text → Prop} (hR : Alike R)

include hR

/-- What stands behind a common front part is related, and so are the wholes. -/
theorem append {e : Bool} {s n : Text} (x : Text) (h : R (escapesAfter e x) s n) :
    R e (x ++ s) (x ++ n) := by
  induction x generalizing e with
  | nil => exact h
  | cons c x ih => exact hR.char c (ih h)

theorem head?_any {p : Char → Bool} (hp : ∀ t : Text, t.Apart → t.head?.any p = false) {e : Bool}
    {s n : Text} (h : R e s n) (hn : n.head?.any p = true) : s.head?.any p = true := by
  rcases hR.front h with ⟨c, s', n', rfl, rfl, -⟩ | ⟨hapart, -⟩
  · exact hn
  · rw [hp n hapart] at hn
    cases hn

theorem head?_eq {d : Char} (hd : isExtending d = true)
    {e : Bool} {s n : Text} (h : R e s n) (hn : n.head? = some d) : s.head? = some d := by
  rcases hR.front h with ⟨c, s', n', rfl, rfl, -⟩ | ⟨hapart, -⟩
  · exact hn
  · exact absurd hn (hapart.head?_ne hd)

theorem startsDigit {e : Bool} {s n : Text} (h : R e s n) (hn : startsDigit n = true) :
    startsDigit s = true := by
  rw [startsDigit_eq] at hn ⊢
  exact hR.head?_any (fun t ht => startsDigit_eq t ▸ ht.startsDigit) h hn

theorem startsEscape {s n : Text} (h : R false s n) (hn : startsEscape n = true) :
    startsEscape s = true := by
  rcases hR.front h with ⟨c, s', n', rfl, rfl, rest⟩ | ⟨hapart, -⟩
  · by_cases hc : c = '\\'
    · subst hc
      rcases hR.front rest with ⟨d, s'', n'', rfl, rfl, -⟩ | ⟨-, hnil⟩
      · exact hn
      · rw [hnil rfl] at hn
        cases hn
    · rw [startsEscape_cons hc] at hn
      cases hn
  · rw [hapart.startsEscape] at hn
    cases hn

theorem startsIdent {s n : Text} (h : R false s n) (hn : startsIdent n = true) :
    startsIdent s = true := by
  have hwhole := fun hescape => hR.startsEscape h hescape
  rcases hR.front h with ⟨c, s', n', rfl, rfl, rest⟩ | ⟨hapart, -⟩
  · rw [startsIdent_cons] at hn ⊢
    split at hn
    · rename_i hminus
      rw [if_pos hminus]
      rw [escapes_of_ne _ (by rw [hminus]; decide)] at rest
      rw [Bool.or_eq_true] at hn ⊢
      refine hn.imp (hR.head?_any (fun t ht => ht.head?_any fun d hd => ?_) rest)
        (hR.startsEscape rest)
      rw [Bool.or_eq_true, decide_eq_true_eq] at hd
      rcases hd with hd | rfl
      · simp [isExtending, isIdentPart, hd]
      · decide
    · rename_i hminus
      rw [if_neg hminus]
      split at hn
      · rename_i hslash
        rw [if_pos hslash]
        exact hwhole hn
      · rename_i hslash
        rwa [if_neg hslash]
  · rw [hapart.startsIdent] at hn
    cases hn

theorem startsUnsigned {e : Bool} {s n : Text} (h : R e s n) (hn : startsUnsigned n = true) :
    startsUnsigned s = true := by
  rcases hR.front h with ⟨c, s', n', rfl, rfl, rest⟩ | ⟨hapart, -⟩
  · rw [startsUnsigned_cons] at hn ⊢
    split at hn
    · rename_i hpoint
      rw [if_pos hpoint]
      exact hR.startsDigit rest hn
    · rename_i hpoint
      rwa [if_neg hpoint]
  · rw [hapart.2] at hn
    cases hn

theorem startsNumber {e : Bool} {s n : Text} (h : R e s n) (hn : startsNumber n = true) :
    startsNumber s = true := by
  rcases hR.front h with ⟨c, s', n', rfl, rfl, rest⟩ | ⟨hapart, -⟩
  · simp only [Lexeme.startsNumber] at hn ⊢
    split at hn
    · rename_i hsign
      rw [if_pos hsign]
      exact hR.startsUnsigned rest hn
    · rename_i hsign
      rw [if_neg hsign]
      exact hR.startsUnsigned h hn
  · -- a text that is apart begins with no sign
    cases n with
    | nil => cases hn
    | cons c n =>
      have hplus : c ≠ '+' := hapart.ne (by decide)
      have hminus : c ≠ '-' := hapart.ne (by decide)
      simp [Lexeme.startsNumber, hplus, hminus, hapart.2] at hn

theorem startsComment {e : Bool} {c : Char} {s n : Text} (h : R e s n)
    (hn : startsComment (c :: n) = true) : startsComment (c :: s) = true := by
  rw [startsComment_cons, Bool.and_eq_true] at hn ⊢
  refine hn.imp id (hR.head?_any (fun t ht => ht.head?_any fun d hd => ?_) h)
  rw [of_decide_eq_true hd]
  decide

end Alike

/-- The characters that are a token by themselves, whatever follows. -/
def isPunct (c : Char) : Bool :=
  !(isQuote c || isIdentStart c || c.isDigit || "/$+-.\\".toList.contains c)

theorem read_punct {c : Char} (h : isPunct c = true) (t : Text) :
    read (c :: t) = some (.token .punct [c] [c]) := by
  simp only [isPunct, Bool.not_eq_true', Bool.or_eq_false_iff, String.reduceToList,
    List.contains_cons, List.contains_nil, Bool.or_false, beq_eq_false_iff_ne] at h
  obtain ⟨⟨⟨hquote, hstart⟩, hdigit⟩, hslash, hdollar, hplus, hminus, hpoint, hback⟩ := h
  have hcomment : startsComment (c :: t) = false := by simp [startsComment_cons, hslash]
  have hnumber : startsNumber (c :: t) = false := by
    simp [startsNumber, startsUnsigned_cons, hplus, hminus, hpoint, hdigit]
  have hident : startsIdent (c :: t) = false := by simp [startsIdent_cons, hminus, hback, hstart]
  simp [read, hcomment, hquote, hdollar, hnumber, hident]

/-! ### Front parts -/

/-- What `f` takes from the front is whole and does not depend on what stands behind it, as long as
that goes on alike. -/
structure Keeps (R : Bool → Text → Text → Prop) (f : Text → Text) : Prop where
  whole : ∀ t, (f t).Whole
  same : ∀ {x y z : Text}, R false y z → f (x ++ y) = x → f (x ++ z) = x

theorem takeIdent_cons {c : Char} (hc : isIdentPart c = true) (t : Text) :
    takeIdent (c :: t) = c :: takeIdent t := by
  cases t <;> simp [takeIdent, hc]

theorem takeIdent_escape {d : Char} (hd : isEscapable d = true) (t : Text) :
    takeIdent ('\\' :: d :: t) = '\\' :: d :: takeIdent t := by
  have hc : isIdentPart '\\' = false := by decide
  simp [takeIdent, hc, hd]

/-- An identifier does not go on where no identifier character and no escape stands. -/
theorem takeIdent_eq_nil {t : Text} :
    takeIdent t = [] ↔ t.head?.any isIdentPart = false ∧ startsEscape t = false := by
  match t with
  | [] => simp [takeIdent, startsEscape]
  | [c] => cases hc : isIdentPart c <;> simp [takeIdent, hc, startsEscape]
  | c :: d :: t =>
    cases hc : isIdentPart c with
    | true => simp [takeIdent, hc]
    | false =>
      by_cases hslash : c = '\\'
      · subst hslash
        cases hd : isEscapable d <;> simp [takeIdent, hc, hd, startsEscape]
      · simp [takeIdent, hc, hslash, startsEscape_cons hslash]

theorem takeWhile_eq_nil {p : Char → Bool} {t : Text} :
    t.takeWhile p = [] ↔ t.head?.any p = false := by
  cases t with
  | nil => simp
  | cons c t => cases hc : p c <;> simp [hc]

theorem takeSign_eq_nil {t : Text} :
    takeSign t = [] ↔ t.head?.any (fun c => c = '+' || c = '-') = false := by
  cases t with
  | nil => simp [takeSign]
  | cons c t => simp [takeSign]

theorem takeFraction_eq_nil {t : Text} :
    takeFraction t = [] ↔ (t.head? = some '.' → startsUnsigned t = false) := by
  cases t with
  | nil => simp [takeFraction]
  | cons c t =>
    by_cases hc : c = '.' <;> simp [takeFraction, startsUnsigned_cons, hc]

theorem takeUnit_eq_nil {t : Text} :
    takeUnit t = [] ↔ startsIdent t = false ∧ t.head? ≠ some '%' := by
  cases hident : startsIdent t with
  | true => simp [takeUnit, hident, takeIdent_ne_nil hident]
  | false => cases t <;> simp [takeUnit, hident]

/-- Whether a digit stands in front, or behind a sign in front. -/
def startsSigned (t : Text) : Bool := startsDigit (t.drop (takeSign t).length)

theorem takeExponent_eq_nil {t : Text} :
    takeExponent t = [] ↔
      (t.head?.any (fun c => c = 'e' || c = 'E') = true → startsSigned t.tail = false) := by
  cases t with
  | nil => simp [takeExponent]
  | cons c t =>
    by_cases hc : (c = 'e' || c = 'E') = true <;>
      cases hs : startsDigit (t.drop (takeSign t).length) <;>
        simp [takeExponent, startsSigned, hc, hs]

/-- The identifier that a text begins with begins with the same signs. -/
theorem startsIdent_takeIdent {t : Text} (h : startsIdent t = true) :
    startsIdent (takeIdent t) = true := by
  cases t with
  | nil => cases h
  | cons c t =>
    rw [startsIdent_cons] at h
    split at h
    · rename_i hminus
      subst hminus
      rw [takeIdent_cons (by decide), startsIdent_cons, if_pos rfl]
      rw [Bool.or_eq_true] at h
      rcases h with h | h
      · cases t with
        | nil => cases h
        | cons d t =>
          have hd : isIdentPart d = true := by
            simp only [List.head?_cons, Option.any_some, Bool.or_eq_true, decide_eq_true_eq] at h
            rcases h with h | rfl
            · simp [isIdentPart, h]
            · decide
          rw [takeIdent_cons hd]
          exact Bool.or_eq_true_iff.2 (.inl h)
      · obtain ⟨d, r, rfl, hd⟩ := exists_of_startsEscape h
        rw [takeIdent_escape hd]
        exact Bool.or_eq_true_iff.2 (.inr hd)
    · rename_i hminus
      split at h
      · obtain ⟨d, r, heq, hd⟩ := exists_of_startsEscape h
        rw [heq, takeIdent_escape hd]
        exact hd
      · rename_i hslash
        rw [takeIdent_cons (by simp [isIdentPart, h]), startsIdent_cons, if_neg hminus,
          if_neg hslash]
        exact h

theorem startsDigit_takeDigits {t : Text} (h : startsDigit t = true) :
    startsDigit (takeDigits t) = true := by
  cases t with
  | nil => cases h
  | cons c t =>
    have hc : c.isDigit = true := h
    simp [takeDigits, hc, startsDigit]

theorem startsSigned_take {t : Text} (h : startsSigned t = true) :
    startsSigned (andThen takeSign takeDigits t) = true := by
  cases t with
  | nil => cases h
  | cons c t =>
    by_cases hsign : (c = '+' || c = '-') = true
    · have hdigit : startsDigit t = true := by simpa [startsSigned, takeSign, hsign] using h
      simpa [startsSigned, andThen, takeSign, hsign] using startsDigit_takeDigits hdigit
    · have hdigit : startsDigit (c :: t) = true := by simpa [startsSigned, takeSign, hsign] using h
      have hc : c.isDigit = true := hdigit
      simp [startsSigned, andThen, takeSign, hsign, takeDigits, hc, startsDigit]

theorem startsUnsigned_take {t : Text} (h : startsUnsigned t = true) (g : Text → Text) :
    startsUnsigned (andThen takeDigits (andThen takeFraction g) t) = true := by
  cases t with
  | nil => cases h
  | cons c t =>
    rw [startsUnsigned_cons] at h
    split at h
    · rename_i hpoint
      subst hpoint
      have hdigits : takeDigits ('.' :: t) = [] := by simp [takeDigits]
      have hfraction : takeFraction ('.' :: t) = '.' :: takeDigits t := by simp [takeFraction, h]
      rw [andThen, hdigits, List.nil_append, List.length_nil, List.drop_zero, andThen, hfraction,
        List.cons_append, startsUnsigned_cons, if_pos rfl]
      exact alike_front.startsDigit (e := false) (List.prefix_append _ _)
        (startsDigit_takeDigits h)
    · rename_i hpoint
      have hdigits : takeDigits (c :: t) = c :: takeDigits t := by simp [takeDigits, h]
      rw [andThen, hdigits, List.cons_append, startsUnsigned_cons, if_neg hpoint]
      exact h

theorem startsNumber_of_startsUnsigned {t : Text} (h : startsUnsigned t = true) :
    startsNumber t = true := by
  cases t with
  | nil => cases h
  | cons c t =>
    have hsign : (c = '+' || c = '-') = false := by
      by_contra hsign
      simp only [Bool.not_eq_false, Bool.or_eq_true, decide_eq_true_eq] at hsign
      rcases hsign with rfl | rfl <;> cases h
    simpa only [startsNumber, hsign, Bool.false_eq_true, if_false] using h

/-- The number that a text begins with begins with the same signs. -/
theorem startsNumber_takeNumber {t : Text} (h : startsNumber t = true) :
    startsNumber (takeNumber t) = true := by
  cases t with
  | nil => cases h
  | cons c t =>
    simp only [startsNumber] at h
    have hnumber := fun {u} hu => startsUnsigned_take (t := u) hu (andThen takeExponent takeUnit)
    split at h
    · rename_i hsign
      have htake : takeSign (c :: t) = [c] := by simp only [takeSign, hsign, if_true]
      rw [takeNumber, andThen, htake, List.singleton_append, List.length_singleton, List.drop_one,
        List.tail_cons]
      simpa only [startsNumber, hsign, if_true] using hnumber h
    · rename_i hsign
      have htake : takeSign (c :: t) = [] := by simp [takeSign, hsign]
      rw [takeNumber, andThen, htake, List.nil_append, List.length_nil, List.drop_zero]
      exact startsNumber_of_startsUnsigned (hnumber h)

/-! ### Front parts are whole -/

theorem ne_of_isIdentPart {c : Char} (hc : isIdentPart c = true) : c ≠ '\\' := by
  rintro rfl
  cases hc

theorem whole_takeIdent (t : Text) : (takeIdent t).Whole := by
  fun_induction takeIdent t with
  | case1 => exact .nil
  | case2 c hc => exact .cons (ne_of_isIdentPart hc) .nil
  | case3 c => exact .nil
  | case4 c d t hc ih => exact .cons (ne_of_isIdentPart hc) ih
  | case5 c d t _ hescape ih =>
    obtain rfl : c = '\\' := by simpa using (Bool.and_eq_true_iff.1 hescape).1
    exact .escape d ih
  | case6 c d t => exact .nil

theorem whole_takeDigits (t : Text) : (takeDigits t).Whole :=
  .of_forall fun c hc => ne_of_isIdentPart (by simp [isIdentPart, List.mem_takeWhile_imp hc])

theorem whole_takeSign (t : Text) : (takeSign t).Whole := by
  cases t with
  | nil => exact .nil
  | cons c t =>
    simp only [takeSign]
    split
    · rename_i hsign
      refine .cons ?_ .nil
      rintro rfl
      cases hsign
    · exact .nil

theorem whole_andThen {f g : Text → Text} (hf : ∀ t, (f t).Whole) (hg : ∀ t, (g t).Whole)
    (t : Text) : (andThen f g t).Whole :=
  (hf t).append (hg _)

theorem whole_takeFraction (t : Text) : (takeFraction t).Whole := by
  cases t with
  | nil => exact .nil
  | cons c t =>
    simp only [takeFraction]
    split
    · rename_i hpoint
      refine .cons ?_ (whole_takeDigits t)
      rintro rfl
      cases hpoint
    · exact .nil

theorem whole_takeExponent (t : Text) : (takeExponent t).Whole := by
  cases t with
  | nil => exact .nil
  | cons c t =>
    simp only [takeExponent]
    split
    · rename_i hletter
      refine .cons ?_ (whole_andThen whole_takeSign whole_takeDigits t)
      rintro rfl
      cases hletter
    · exact .nil

theorem whole_takeUnit (t : Text) : (takeUnit t).Whole := by
  unfold takeUnit
  split
  · exact whole_takeIdent t
  · cases t with
    | nil => exact .nil
    | cons c t =>
      by_cases hc : c = '%'
      · subst hc
        exact .cons (by decide) .nil
      · simp only [hc, if_false]
        exact .nil

namespace Alike

variable {R : Bool → Text → Text → Prop} (hR : Alike R)

include hR

theorem takeWhile {p : Char → Bool} (hp : ∀ c, p c = true → isExtending c = true)
    {x y z : Text} (h : R false y z) (hx : (x ++ y).takeWhile p = x) :
    (x ++ z).takeWhile p = x := by
  have hall : ∀ c ∈ (x ++ y).takeWhile p, p c = true := fun c hc => List.mem_takeWhile_imp hc
  rw [hx] at hall
  rw [List.takeWhile_append_of_pos hall, List.append_right_eq_self] at hx ⊢
  rw [takeWhile_eq_nil] at hx ⊢
  exact Bool.eq_false_iff.2 fun hz => Bool.eq_false_iff.1 hx
    (hR.head?_any (fun t ht => ht.head?_any hp) h hz)

theorem keeps_takeIdent : Keeps R takeIdent where
  whole := whole_takeIdent
  same {x y z} h hx := by
    induction hlength : x.length using Nat.strong_induction_on generalizing x with
    | _ k ih =>
      match x with
      | [] =>
        rw [List.nil_append] at hx ⊢
        rw [takeIdent_eq_nil] at hx ⊢
        refine ⟨Bool.eq_false_iff.2 fun hz => Bool.eq_false_iff.1 hx.1 ?_,
          Bool.eq_false_iff.2 fun hz => Bool.eq_false_iff.1 hx.2 (hR.startsEscape h hz)⟩
        exact hR.head?_any (fun t ht => ht.head?_any fun c hc => by simp [isExtending, hc]) h hz
      | c :: x =>
        subst hlength
        cases hc : isIdentPart c with
        | true =>
          rw [List.cons_append, takeIdent_cons hc] at hx ⊢
          rw [ih x.length (by simp) (List.cons.inj hx).2 rfl]
        | false =>
          -- an escape, of which the second character is taken too
          have hescape : Lexeme.startsEscape (c :: x ++ y) = true := by
            by_contra hno
            rw [takeIdent_eq_nil.2 ⟨by simpa using hc, Bool.eq_false_iff.2 hno⟩] at hx
            cases hx
          obtain ⟨d, t, heq, hd⟩ := exists_of_startsEscape hescape
          obtain ⟨rfl, hdt⟩ := List.cons.inj heq
          rw [heq, takeIdent_escape hd] at hx
          match x with
          | [] => cases (List.cons.inj hx).2
          | e :: x =>
            obtain ⟨rfl, rfl⟩ := List.cons.inj hdt
            rw [List.cons_append, List.cons_append, takeIdent_escape hd,
              ih x.length (by simp only [List.length_cons]; omega)
                (List.cons.inj (List.cons.inj hx).2).2 rfl]

theorem keeps_takeSign : Keeps R takeSign where
  whole := whole_takeSign
  same {x y z} h hx := by
    cases x with
    | nil =>
      rw [List.nil_append, takeSign_eq_nil] at hx ⊢
      refine Bool.eq_false_iff.2 fun hz => Bool.eq_false_iff.1 hx
        (hR.head?_any (fun t ht => ht.head?_any fun c hc => ?_) h hz)
      rw [Bool.or_eq_true, decide_eq_true_eq, decide_eq_true_eq] at hc
      rcases hc with rfl | rfl <;> decide
    | cons c x => exact hx

theorem keeps_takeDigits : Keeps R takeDigits where
  whole := whole_takeDigits
  same h hx := hR.takeWhile (fun c hc => by simp [isExtending, isIdentPart, hc]) h hx

theorem keeps_takeFraction : Keeps R takeFraction where
  whole := whole_takeFraction
  same {x y z} h hx := by
    cases x with
    | nil =>
      rw [List.nil_append, takeFraction_eq_nil] at hx ⊢
      intro hpoint
      refine Bool.eq_false_iff.2 fun hz => ?_
      rcases hR.front h with ⟨c, y', z', rfl, rfl, -⟩ | ⟨hapart, -⟩
      · exact Bool.eq_false_iff.1 (hx hpoint) (hR.startsUnsigned h hz)
      · exact Bool.eq_false_iff.1 hapart.2 hz
    | cons c x =>
      simp only [List.cons_append, takeFraction] at hx ⊢
      split at hx
      · rename_i hcond
        rw [Bool.and_eq_true] at hcond
        have hdigits := (List.cons.inj hx).2
        have hdigit : Lexeme.startsDigit x = true := hdigits ▸ startsDigit_takeDigits hcond.2
        have hdigit' := alike_front.startsDigit (e := false) (x.prefix_append z) hdigit
        rw [if_pos (by rw [hcond.1, hdigit']; rfl), hR.keeps_takeDigits.same h hdigits]
      · cases hx

theorem startsSigned {s n : Text} (h : R false s n) (hn : startsSigned n = true) :
    startsSigned s = true := by
  rcases hR.front h with ⟨c, s', n', rfl, rfl, rest⟩ | ⟨hapart, -⟩
  · simp only [Lexeme.startsSigned, takeSign] at hn ⊢
    split at hn
    · rename_i hsign
      rw [if_pos hsign]
      exact hR.startsDigit rest hn
    · rename_i hsign
      rw [if_neg hsign]
      exact hn
  · have hsign : takeSign n = [] := takeSign_eq_nil.2 (hapart.head?_any fun c hc => by
      rw [Bool.or_eq_true, decide_eq_true_eq, decide_eq_true_eq] at hc
      rcases hc with rfl | rfl <;> decide)
    rw [Lexeme.startsSigned, hsign, List.length_nil, List.drop_zero, hapart.startsDigit] at hn
    cases hn

theorem keeps_andThen {f g : Text → Text} (hf : Keeps R f) (hg : Keeps R g) :
    Keeps R (andThen f g) where
  whole := whole_andThen hf.whole hg.whole
  same {x y z} h hx := by
    rw [andThen] at hx
    generalize hx₁ : f (x ++ y) = x₁ at hx
    generalize hx₂ : g ((x ++ y).drop x₁.length) = x₂ at hx
    subst hx
    have hwhole : x₂.Whole := hx₂ ▸ hg.whole _
    rw [List.append_assoc] at hx₁ hx₂
    rw [List.drop_left] at hx₂
    have hbehind : R false (x₂ ++ y) (x₂ ++ z) := hR.append x₂ (by rwa [hwhole])
    rw [andThen, List.append_assoc, hf.same hbehind hx₁, List.drop_left, hg.same h hx₂]

theorem keeps_takeExponent : Keeps R takeExponent where
  whole := whole_takeExponent
  same {x y z} h hx := by
    cases x with
    | nil =>
      rw [List.nil_append, takeExponent_eq_nil] at hx ⊢
      intro hletter
      rcases hR.front h with ⟨c, y', z', rfl, rfl, rest⟩ | ⟨hapart, -⟩
      · have hc : c ≠ '\\' := by
          rintro rfl
          cases hletter
        rw [escapes_of_ne _ hc] at rest
        exact Bool.eq_false_iff.2 fun hz => Bool.eq_false_iff.1 (hx hletter)
          (hR.startsSigned rest hz)
      · rw [hapart.head?_any fun c hc => ?_] at hletter
        · cases hletter
        · rw [Bool.or_eq_true, decide_eq_true_eq, decide_eq_true_eq] at hc
          rcases hc with rfl | rfl <;> decide
    | cons c x =>
      simp only [List.cons_append, takeExponent] at hx ⊢
      split at hx
      · rename_i hcond
        rw [Bool.and_eq_true] at hcond
        have htake := (List.cons.inj hx).2
        have hsigned : Lexeme.startsSigned x = true := htake ▸ startsSigned_take hcond.2
        have hsigned' := alike_front.startsSigned (x.prefix_append z) hsigned
        have hkeep := (hR.keeps_andThen hR.keeps_takeSign hR.keeps_takeDigits).same h htake
        have hcond' : ((c = 'e' || c = 'E') &&
            Lexeme.startsDigit ((x ++ z).drop (takeSign (x ++ z)).length)) = true :=
          Bool.and_eq_true_iff.2 ⟨hcond.1, hsigned'⟩
        rw [if_pos hcond', hkeep]
      · cases hx

theorem keeps_takeUnit : Keeps R takeUnit where
  whole := whole_takeUnit
  same {x y z} h hx := by
    cases x with
    | nil =>
      rw [List.nil_append, takeUnit_eq_nil] at hx ⊢
      exact ⟨Bool.eq_false_iff.2 fun hz => Bool.eq_false_iff.1 hx.1 (hR.startsIdent h hz),
        fun hz => hx.2 (hR.head?_eq (by decide) h hz)⟩
    | cons c x =>
      rw [List.cons_append] at hx
      cases hident : Lexeme.startsIdent (c :: (x ++ y)) with
      | true =>
        simp only [takeUnit, hident, if_true] at hx
        have hstarts : Lexeme.startsIdent (c :: x) = true := hx ▸ startsIdent_takeIdent hident
        have hstarts' := alike_front.startsIdent ((c :: x).prefix_append z) hstarts
        simp only [takeUnit, hstarts', if_true]
        exact hR.keeps_takeIdent.same h hx
      | false =>
        have hpercent : c = '%' := by
          by_contra hc
          simp [takeUnit, hident, hc] at hx
        subst hpercent
        obtain rfl : x = [] := by simpa [takeUnit, hident] using hx
        rfl

theorem keeps_takeNumber : Keeps R takeNumber :=
  hR.keeps_andThen hR.keeps_takeSign (hR.keeps_andThen hR.keeps_takeDigits
    (hR.keeps_andThen hR.keeps_takeFraction
      (hR.keeps_andThen hR.keeps_takeExponent hR.keeps_takeUnit)))

end Alike

/-! ### Lexemes -/

theorem takeContent_cons {mark c : Char} (hline : c ≠ '\n') (hslash : c ≠ '\\') (hmark : c ≠ mark)
    (t : Text) : takeContent mark (c :: t) = c :: takeContent mark t := by
  cases t <;> simp [takeContent, hline, hslash, hmark]

theorem takeContent_mark {mark : Char} (hmark : mark ≠ '\\') (t : Text) :
    takeContent mark (mark :: t) = [] := by
  cases t <;> simp [takeContent, hmark]

/-- The content of a string depends on the text up to its closing mark only. -/
theorem takeContent_append {mark : Char} (hmark : mark ≠ '\\') {t r : Text}
    (ht : t = takeContent mark t ++ mark :: r) (r' : Text) :
    takeContent mark (takeContent mark t ++ mark :: r') = takeContent mark t := by
  fun_induction takeContent mark t with
  | case1 => cases ht
  | case2 c => exact takeContent_mark hmark r'
  | case3 c =>
    have hlength := congrArg List.length ht
    simp at hlength
  | case4 d t => exact takeContent_mark hmark r'
  | case5 d t _ ih =>
    have hrest := ih (List.cons.inj (List.cons.inj ht).2).2
    simp only [List.cons_append, takeContent, hrest]
    simp
  | case6 d t => exact takeContent_mark hmark r'
  | case7 c d t hline hslash hend ih =>
    rw [List.cons_append, takeContent_cons hline hslash hend, ih (List.cons.inj ht).2]

theorem eq_of_readString {mark : Char} {t : Text} {kind : TokenKind} {text value : Text}
    (h : readString mark t = .token kind text value) :
    kind = .string ∧ text = mark :: takeContent mark t ++ [mark] ∧ value = takeContent mark t ∧
      ∃ r, t = takeContent mark t ++ mark :: r := by
  simp only [readString] at h
  split at h
  · rename_i c r hr
    split at h
    · rename_i hc
      subst hc
      cases h
      refine ⟨rfl, rfl, rfl, r, ?_⟩
      rw [← hr, Text.append_drop_of_prefix (takeContent_isPrefix c t)]
    · cases h
  · cases h

/-- A string that is closed is read whatever follows. -/
theorem readString_append {mark : Char} (hmark : mark ≠ '\\') {x y : Text} {kind : TokenKind}
    {value : Text} (h : readString mark (x ++ y) = .token kind (mark :: x) value) (z : Text) :
    readString mark (x ++ z) = .token kind (mark :: x) value := by
  obtain ⟨rfl, htext, rfl, r, ht⟩ := eq_of_readString h
  have hsame := takeContent_append hmark ht
  generalize takeContent mark (x ++ y) = content at *
  obtain rfl : x = content ++ [mark] := (List.cons.inj htext).2
  have hcontent : takeContent mark (content ++ mark :: z) = content := hsame z
  simp [readString, hcontent]

theorem eq_of_readPlaceholder {t : Text} {kind : TokenKind} {text value : Text}
    (h : readPlaceholder t = .token kind text value) :
    kind = .placeholder ∧ text = '$' :: '\x7b' :: value ++ ['\x7d'] ∧ value ≠ [] ∧
      (∀ c ∈ value, isNamePart c = true) := by
  simp only [readPlaceholder] at h
  split at h
  · rename_i c name r hname hr
    cases h
    rw [hname]
    refine ⟨rfl, rfl, List.cons_ne_nil c name, fun d hd => ?_⟩
    rw [← hname] at hd
    exact List.mem_takeWhile_imp hd
  · cases h

/-- So is a placeholder. -/
theorem readPlaceholder_append {x y : Text} {kind : TokenKind} {value : Text}
    (h : readPlaceholder (x ++ y) = .token kind ('$' :: '\x7b' :: x) value) (z : Text) :
    readPlaceholder (x ++ z) = .token kind ('$' :: '\x7b' :: x) value := by
  obtain ⟨rfl, htext, hne, hname⟩ := eq_of_readPlaceholder h
  obtain rfl : x = value ++ ['\x7d'] := (List.cons.inj (List.cons.inj htext).2).2
  have htake : (value ++ '\x7d' :: z).takeWhile isNamePart = value := by
    rw [List.takeWhile_append_of_pos hname]
    simp [isNamePart]
  obtain ⟨c, name, rfl⟩ := List.exists_cons_of_ne_nil hne
  rw [List.append_assoc, List.singleton_append, readPlaceholder]
  simp only [htake, List.drop_left]
  rfl

/-- Whether a quote comes first behind white space. -/
def quotes (t : Text) : Bool := (t.dropWhile isSpace).head?.any isQuote

theorem quotes_space {c : Char} (hc : isSpace c = true) (t : Text) : quotes (c :: t) = quotes t := by
  rw [quotes, quotes, List.dropWhile_cons_of_pos hc]

theorem quotes_cons {c : Char} (hc : isSpace c = false) (t : Text) :
    quotes (c :: t) = isQuote c := by
  rw [quotes, List.dropWhile_cons_of_neg (by simp [hc]), List.head?_cons, Option.any_some]

theorem readIdent_of_paren {t r : Text} (h : t.drop (takeIdent t).length = '(' :: r) :
    readIdent t =
      if Text.lower (takeIdent t) = "url".toList && !quotes r then
        if r.drop (r.takeWhile (· ≠ ')')).length = [] then
          broken .unterminatedUrl (takeIdent t ++ '(' :: r)
        else
          token .url (takeIdent t ++ '(' :: r.takeWhile (· ≠ ')') ++ [')'])
            (Text.strip (r.takeWhile (· ≠ ')')))
      else token .ident (takeIdent t) (takeIdent t) := by
  simp only [readIdent, h, quotes]
  rfl

theorem readIdent_of_not_paren {t : Text} (h : (t.drop (takeIdent t).length).head? ≠ some '(') :
    readIdent t = token .ident (takeIdent t) (takeIdent t) := by
  simp only [readIdent]
  split
  · rename_i r hr
    simp [hr] at h
  · rfl

/-- What a url stands for: a name, and all up to the first closing parenthesis. -/
theorem eq_of_readIdent {t : Text} {kind : TokenKind} {text value : Text}
    (h : readIdent t = .token kind text value) :
    kind = .ident ∧ text = takeIdent t ∧ value = takeIdent t ∧
        (∀ r, t.drop (takeIdent t).length = '(' :: r → Text.lower (takeIdent t) = "url".toList →
          quotes r = true) ∨
      kind = .url ∧ Text.lower (takeIdent t) = "url".toList ∧ ∃ content r,
        t.drop (takeIdent t).length = '(' :: (content ++ ')' :: r) ∧
        (∀ c ∈ content, c ≠ ')') ∧ quotes (content ++ ')' :: r) = false ∧
        text = takeIdent t ++ '(' :: content ++ [')'] ∧ value = Text.strip content := by
  by_cases hparen : (t.drop (takeIdent t).length).head? = some '('
  · obtain ⟨r, hr⟩ := List.head?_eq_some_iff.1 hparen
    rw [readIdent_of_paren hr] at h
    split at h
    · rename_i hurl
      simp only [Bool.and_eq_true, decide_eq_true_eq, Bool.not_eq_true'] at hurl
      split at h
      · cases h
      · rename_i hclosed
        cases h
        obtain ⟨c, rest, hrest⟩ := List.exists_cons_of_ne_nil hclosed
        have hclose : c = ')' := by simpa using Text.not_of_drop_takeWhile hrest
        have hcontent := Text.append_drop_of_prefix (List.takeWhile_prefix (· ≠ ')') (l := r))
        rw [hrest, hclose] at hcontent
        refine .inr ⟨rfl, hurl.1, r.takeWhile (· ≠ ')'), rest, ?_, ?_, ?_, rfl, rfl⟩
        · rw [hr, hcontent]
        · intro c hc
          simpa using List.mem_takeWhile_imp (p := fun c => decide (c ≠ ')')) hc
        · rw [hcontent, hurl.2]
    · rename_i hplain
      cases h
      refine .inl ⟨rfl, rfl, rfl, fun r' hr' hlower => ?_⟩
      rw [hr] at hr'
      cases hr'
      simpa [hlower] using hplain
  · rw [readIdent_of_not_paren hparen] at h
    cases h
    exact .inl ⟨rfl, rfl, rfl, fun r hr => absurd (by rw [hr]; rfl) hparen⟩

/-- The forms that a token in front of `c :: s` can have. -/
inductive Form (c : Char) (s : Text) : TokenKind → (text value : Text) → Prop
  | string (quote : isQuote c = true) :
      Form c s .string (c :: takeContent c s ++ [c]) (takeContent c s)
  | placeholder {name : Text} (ne_nil : name ≠ []) (parts : ∀ d ∈ name, isNamePart d = true) :
      Form c s .placeholder ('$' :: '\x7b' :: name ++ ['\x7d']) name
  | number : Form c s .number (takeNumber (c :: s)) (takeNumber (c :: s))
  | ident : Form c s .ident (takeIdent (c :: s)) (takeIdent (c :: s))
  | url {content : Text} :
      Form c s .url (takeIdent (c :: s) ++ '(' :: content ++ [')']) (Text.strip content)
  | punct : Form c s .punct [c] [c]

theorem form_of_read {c : Char} {s : Text} {kind : TokenKind} {text value : Text}
    (h : read (c :: s) = some (.token kind text value)) : Form c s kind text value := by
  simp only [read, Option.some.injEq] at h
  split at h
  · cases h
  split at h
  · rename_i hquote
    obtain ⟨rfl, rfl, rfl, -⟩ := eq_of_readString h
    exact .string hquote
  split at h
  · obtain ⟨rfl, rfl, hne, hparts⟩ := eq_of_readPlaceholder h
    exact .placeholder hne hparts
  split at h
  · cases h
    exact .number
  split at h
  · rcases eq_of_readIdent h with ⟨rfl, rfl, rfl, -⟩ | ⟨rfl, -, content, r, -, -, -, rfl, rfl⟩
    · exact .ident
    · exact .url
  · cases h
    exact .punct

theorem whole_of_readIdent {t : Text} {kind : TokenKind} {text value : Text}
    (h : readIdent t = .token kind text value) : text.Whole := by
  rcases eq_of_readIdent h with ⟨-, rfl, -⟩ | ⟨-, -, content, r, -, -, -, rfl, -⟩
  · exact whole_takeIdent t
  · exact .concat _ (by decide)

theorem quotes_append_close (content r r' : Text) :
    quotes (content ++ ')' :: r) = quotes (content ++ ')' :: r') := by
  induction content with
  | nil => rfl
  | cons c content ih =>
    cases hc : isSpace c with
    | true => rw [List.cons_append, List.cons_append, quotes_space hc, quotes_space hc, ih]
    | false => rw [List.cons_append, List.cons_append, quotes_cons hc, quotes_cons hc]

namespace Alike

variable {R : Bool → Text → Text → Prop} (hR : Alike R)

include hR

theorem readIdent {x y z : Text} {kind : TokenKind} {value : Text} (h : R false y z)
    (hquotes : ∀ r r', y = '(' :: r → z = '(' :: r' → quotes r = true → quotes r' = true)
    (hread : readIdent (x ++ y) = .token kind x value) :
    readIdent (x ++ z) = .token kind x value := by
  rcases eq_of_readIdent hread with ⟨rfl, hx, rfl, hname⟩ | hurl
  · have hkeep := hR.keeps_takeIdent.same h hx.symm
    rw [← hx] at hname ⊢
    rw [List.drop_left] at hname
    by_cases hparen : z.head? = some '('
    · -- a url is quoted here if it is quoted there
      obtain ⟨r', rfl⟩ := List.head?_eq_some_iff.1 hparen
      rcases hR.front h with ⟨c, r, n, rfl, heq, -⟩ | ⟨hapart, -⟩
      · cases heq
        have hplain : ¬((Text.lower x = "url".toList && !quotes r') = true) := by
          intro hurl
          simp only [Bool.and_eq_true, decide_eq_true_eq, Bool.not_eq_true'] at hurl
          rw [hquotes r r' rfl rfl (hname r rfl hurl.1)] at hurl
          cases hurl.2
        rw [readIdent_of_paren (by rw [hkeep, List.drop_left]), hkeep, if_neg hplain]
      · exact absurd rfl (hapart.head?_ne (by decide))
    · rw [readIdent_of_not_paren (by rwa [hkeep, List.drop_left]), hkeep]
  · obtain ⟨rfl, hlower, content, r, hdrop, hclose, hopen, hx, rfl⟩ := hurl
    have hident := Text.append_drop_of_prefix (takeIdent_isPrefix (x ++ y))
    rw [hdrop] at hident
    generalize hi : takeIdent (x ++ y) = ident at *
    obtain rfl : y = r := by
      rw [hx] at hident
      simpa using hident.symm
    have hsplit : ∀ t : Text, x ++ t = ident ++ '(' :: (content ++ ')' :: t) := by
      intro t
      simp [hx]
    have hrest : R false ('(' :: (content ++ ')' :: y)) ('(' :: (content ++ ')' :: z)) := by
      have hclosed : escapesAfter false ('(' :: content ++ [')']) = false :=
        escapesAfter_concat false _ (by decide)
      have hbehind := hR.append ('(' :: content ++ [')']) (by rwa [hclosed] : R _ y z)
      simpa using hbehind
    rw [hsplit] at hi
    have hkeep := hR.keeps_takeIdent.same hrest hi
    have htake : (content ++ ')' :: z).takeWhile (· ≠ ')') = content := by
      rw [List.takeWhile_append_of_pos fun c hc => by simpa using hclose c hc]
      simp
    have hquote : quotes (content ++ ')' :: z) = false := by
      rw [quotes_append_close content z y, hopen]
    rw [hsplit, readIdent_of_paren (by rw [hkeep, List.drop_left]), hkeep, htake]
    simp [hlower, hquote, hx]

/-- What is read in front of a text is read in front of another that goes on alike. Past the name of
a url this depends on whether a quote follows its parenthesis. -/
theorem read {x y z : Text} {kind : TokenKind} {value : Text}
    (h : R (escapesAfter false x) y z)
    (hquotes : ∀ r r', y = '(' :: r → z = '(' :: r' → quotes r = true → quotes r' = true)
    (hread : read (x ++ y) = some (.token kind x value)) :
    read (x ++ z) = some (.token kind x value) := by
  cases x with
  | nil => exact absurd rfl (text_ne_nil_of_read hread)
  | cons c x =>
    have hafter : R (escapes false c) (x ++ y) (x ++ z) := hR.append x h
    have hwhole : R false (c :: (x ++ y)) (c :: (x ++ z)) := hR.char c hafter
    have hprefix : c :: x <+: c :: (x ++ z) := (c :: x).prefix_append z
    simp only [List.cons_append, Lexeme.read, Option.some.injEq] at hread ⊢
    split at hread
    · cases hread
    rename_i hcomment
    rw [if_neg fun hz => hcomment (hR.startsComment hafter hz)]
    split at hread
    · rename_i hquote
      rw [if_pos hquote]
      refine readString_append ?_ hread z
      rintro rfl
      exact absurd hquote (by decide)
    rename_i hquote
    rw [if_neg hquote]
    split at hread
    · rename_i hsign
      simp only [Bool.and_eq_true, decide_eq_true_eq] at hsign
      obtain ⟨rfl, hbrace⟩ := hsign
      -- the brace is part of the token
      cases x with
      | nil =>
        obtain ⟨-, htext, -⟩ := eq_of_readPlaceholder hread
        cases (List.cons.inj htext).2
      | cons d x =>
        obtain rfl : d = '\x7b' := Option.some.inj hbrace
        exact readPlaceholder_append hread z
    rename_i hsign
    rw [if_neg fun hz => ?sign]
    case sign =>
      simp only [Bool.and_eq_true, decide_eq_true_eq] at hz hsign
      exact hsign ⟨hz.1, hR.head?_eq (by decide) hafter hz.2⟩
    split at hread
    · rename_i hnumber
      obtain ⟨rfl, hx, rfl⟩ := Lexeme.token.inj hread
      have hstarts : Lexeme.startsNumber (c :: x) = true := hx ▸ startsNumber_takeNumber hnumber
      have hbehind : Text.Whole (c :: x) := hx ▸ hR.keeps_takeNumber.whole _
      rw [hbehind] at h
      have hkeep : takeNumber (c :: (x ++ z)) = c :: x :=
        hR.keeps_takeNumber.same (x := c :: x) h hx
      rw [if_pos (alike_front.startsNumber (e := false) hprefix hstarts), hkeep, hx]
    rename_i hnumber
    rw [if_neg fun hz => hnumber (hR.startsNumber hwhole hz)]
    split at hread
    · rename_i hident
      have hstarts : Lexeme.startsIdent (c :: x) = true := by
        rcases eq_of_readIdent hread with ⟨-, hx, -⟩ | ⟨-, -, content, r, -, -, -, hx, -⟩
        · exact hx ▸ startsIdent_takeIdent hident
        · rw [hx, List.append_assoc]
          exact alike_front.startsIdent (List.prefix_append _ _) (startsIdent_takeIdent hident)
      have hbehind : Text.Whole (c :: x) := whole_of_readIdent hread
      rw [hbehind] at h
      rw [if_pos (alike_front.startsIdent hprefix hstarts)]
      exact hR.readIdent (x := c :: x) h hquotes hread
    · rename_i hident
      rw [if_neg fun hz => hident (hR.startsIdent hwhole hz)]
      exact hread

end Alike

end Lexeme

end ScopedCss
