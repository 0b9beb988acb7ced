/-
Texts that differ only in the white space around line breaks. `Text.Squeezed` relates a text to one
in which each such run has become a single line feed; an escaped blank stays as it is.

Such texts go on alike (`Lexeme.alike_squeezed`), and a lexeme without line breaks is copied from the
one to the other, so it is read from both (`Lexeme.read_of_squeezed`).
-/
import ScopedCss.Proofs.Token.Reach
import ScopedCss.Text.Line

namespace ScopedCss

open Lexeme (isSpace escapesAfter)

/-- The character right before what follows `x`, if `c` stands before `x`. -/
def Lexeme.behind (c : Char) (x : Text) : Char := x.foldl (fun _ d => d) c

open Lexeme (behind)

theorem Lexeme.behind_append (c : Char) (x y : Text) :
    behind c (x ++ y) = behind (behind c x) y :=
  List.foldl_append

/-- Only a backslash escapes what is behind it. -/
theorem Lexeme.behind_of_escapesAfter {b : Char} {x : Text} (h : escapesAfter false x = true) :
    behind b x = '\\' := by
  rcases List.eq_nil_or_concat' x with rfl | ⟨u, c, rfl⟩
  · cases h
  · have hc : c = '\\' := by
      by_contra hc
      rw [escapesAfter_concat false u hc] at h
      cases h
    rw [behind_append]
    exact hc

/-- `n` is `s` with runs of white space around line breaks folded into one line feed each, and those
at the end dropped. Right after a backslash (`escaped`) nothing is folded or dropped. -/
inductive Text.Squeezed : (escaped : Bool) → (s n : Text) → Prop
  | nil {b : Bool} : Squeezed b [] []
  | char {b : Bool} (c : Char) {s n : Text} (rest : Squeezed (c = '\\') s n) :
      Squeezed b (c :: s) (c :: n)
  | fold {w s n : Text} (space : ∀ c ∈ w, isSpace c = true) (broken : ∃ c ∈ w, isBreak c = true)
      (rest : Squeezed false s n) : Squeezed false (w ++ s) ('\n' :: n)
  | trail {w : Text} (space : ∀ c ∈ w, isSpace c = true) : Squeezed false w []

/-- A text behind `b` that does not end in white space, unless that is escaped. -/
def Text.EndsSolid (b : Char) (t : Text) : Prop :=
  ∀ (w : Text) (c : Char), t = w ++ [c] → isSpace c = true → behind b w = '\\'

namespace Text.EndsSolid

theorem nil (b : Char) : EndsSolid b [] := by
  intro w c h
  simp at h

theorem append {b : Char} {s t : Text} (hs : s.EndsSolid b) (ht : t.EndsSolid (behind b s)) :
    EndsSolid b (s ++ t) := by
  intro w c h hc
  rcases List.eq_nil_or_concat' t with rfl | ⟨u, d, rfl⟩
  · exact hs w c (by rwa [List.append_nil] at h) hc
  · rw [← List.append_assoc] at h
    obtain ⟨rfl, hd⟩ := List.append_inj' h rfl
    rw [Lexeme.behind_append]
    exact ht u c (by rw [hd]) hc

theorem concat (b : Char) {c : Char} (hc : isSpace c = false) (t : Text) :
    EndsSolid b (t ++ [c]) := by
  intro w d h hd
  obtain ⟨-, heq⟩ := List.append_inj' h rfl
  rw [← (List.cons.inj heq).1, hc] at hd
  cases hd

theorem of_forall (b : Char) {t : Text} (h : ∀ c ∈ t, isSpace c = false) : t.EndsSolid b := by
  rcases List.eq_nil_or_concat' t with rfl | ⟨u, d, rfl⟩
  · exact nil b
  · exact concat b (h d (by simp)) u

theorem cons (b : Char) {c : Char} {t : Text} (hc : isSpace c = false) (h : t.EndsSolid c) :
    EndsSolid b (c :: t) :=
  append (concat b hc []) h

theorem tail {b c : Char} {t : Text} (h : EndsSolid b (c :: t)) : t.EndsSolid c :=
  fun w d ht hd => h (c :: w) d (by rw [ht]; rfl) hd

/-- White space alone does not end solid. -/
theorem exists_not_space {b : Char} {t : Text} (h : t.EndsSolid b) (hb : b ≠ '\\') (ht : t ≠ []) :
    ∃ c ∈ t, isSpace c = false := by
  rcases List.eq_nil_or_concat' t with rfl | ⟨u, d, rfl⟩
  · exact absurd rfl ht
  cases hd : isSpace d with
  | false => exact ⟨d, by simp, hd⟩
  | true =>
    have hslash := h u d rfl hd
    rcases List.eq_nil_or_concat' u with rfl | ⟨v, e, rfl⟩
    · exact absurd hslash hb
    · rw [Lexeme.behind_append] at hslash
      have he : e = '\\' := hslash
      exact ⟨e, by simp, by rw [he]; decide⟩

end Text.EndsSolid

namespace Text.Squeezed

variable {b : Bool} {s n : Text}

/-- Where nothing is escaped, more may be folded. -/
theorem weaken (h : Squeezed b s n) : Squeezed false s n := by
  cases h with
  | nil => exact .nil
  | char c rest => exact .char c rest
  | fold space broken rest => exact .fold space broken rest
  | trail space => exact .trail space

theorem eq_nil (h : Squeezed b s n) (hs : s = []) : n = [] := by
  cases h with
  | nil => rfl
  | char c rest => cases hs
  | fold space broken rest =>
    obtain ⟨c, hc, -⟩ := broken
    rw [(List.append_eq_nil_iff.1 hs).1] at hc
    cases hc
  | trail space => rfl

/-- What has no line break and ends solid is copied. -/
theorem copy {b : Char} {x : Text} (h : Squeezed (b = '\\') (x ++ s) n)
    (hx : ∀ d ∈ x, isBreak d = false) (hend : x.EndsSolid b) :
    ∃ n', n = x ++ n' ∧ Squeezed (behind b x = '\\') s n' := by
  induction x generalizing b n with
  | nil => exact ⟨n, rfl, h⟩
  | cons d x ih =>
    have hsolid := fun hb => hend.exists_not_space hb (List.cons_ne_nil d x)
    generalize hs : d :: x ++ s = t at h
    generalize he : decide (b = '\\') = e at h
    cases h with
    | nil => cases hs
    | char c rest =>
      cases hs
      obtain ⟨n', rfl, hrest⟩ := ih rest (fun d hd => hx d (List.mem_cons_of_mem _ hd)) hend.tail
      exact ⟨n', rfl, hrest⟩
    | @fold w s' n' space broken rest =>
      -- the run would have to end inside the copied part, and so would its line break
      obtain ⟨c, hc, hspace⟩ := hsolid (of_decide_eq_false he)
      obtain ⟨e, hew, hbreak⟩ := broken
      rcases List.append_eq_append_iff.1 hs with ⟨u, hw, -⟩ | ⟨u, hdx, -⟩
      · rw [space c (hw ▸ List.mem_append_left u hc)] at hspace
        cases hspace
      · rw [hx e (hdx ▸ List.mem_append_left u hew)] at hbreak
        cases hbreak
    | trail space =>
      obtain ⟨c, hc, hspace⟩ := hsolid (of_decide_eq_false he)
      rw [space c (hs ▸ List.mem_append_left s hc)] at hspace
      cases hspace

/-- A character that is no white space stays. -/
theorem cons_left {c : Char} (h : Squeezed b (c :: s) n) (hc : isSpace c = false) :
    ∃ n', n = c :: n' ∧ Squeezed (c = '\\') s n' := by
  generalize hs : c :: s = t at h
  cases h with
  | nil => cases hs
  | char d rest =>
    cases hs
    exact ⟨_, rfl, rest⟩
  | @fold w s' n' space broken rest =>
    cases w with
    | nil =>
      obtain ⟨d, hd, -⟩ := broken
      cases hd
    | cons d w =>
      rw [(List.cons.inj hs).1, space d List.mem_cons_self] at hc
      cases hc
  | trail space =>
    rw [space c (hs ▸ List.mem_cons_self)] at hc
    cases hc

/-- A character that is no white space is not made up. -/
theorem cons_right {c : Char} (h : Squeezed b s (c :: n)) (hc : isSpace c = false) :
    ∃ s', s = c :: s' ∧ Squeezed (c = '\\') s' n := by
  generalize hn : c :: n = m at h
  cases h with
  | nil => cases hn
  | char d rest =>
    cases hn
    exact ⟨_, rfl, rest⟩
  | fold space broken rest =>
    rw [(List.cons.inj hn).1] at hc
    cases hc
  | trail space => cases hn

end Text.Squeezed

namespace Lexeme

open Text (Squeezed EndsSolid)

/-- Texts that are squeezed behind a common front part. The part itself need not be: nothing is
folded behind a backslash, not even behind one that is escaped itself. -/
def SqueezedBehind (escaped : Bool) (s n : Text) : Prop :=
  ∃ x s' n', s = x ++ s' ∧ n = x ++ n' ∧ Squeezed (escapesAfter escaped x) s' n'

/-- Squeezed texts go on alike. -/
theorem alike_squeezed : Alike SqueezedBehind where
  char c _ _ h := by
    obtain ⟨x, s', n', rfl, rfl, hrest⟩ := h
    exact ⟨c :: x, s', n', rfl, rfl, hrest⟩
  front {e s n} h := by
    obtain ⟨x, s', n', rfl, rfl, hrest⟩ := h
    cases x with
    | cons c x => exact .inl ⟨c, x ++ s', x ++ n', rfl, rfl, x, s', n', rfl, rfl, hrest⟩
    | nil =>
      have hrest : Squeezed e s' n' := hrest
      cases hrest with
      | nil => exact .inr ⟨by decide, fun _ => rfl⟩
      | @char _ c s n rest =>
        refine .inl ⟨c, s, n, rfl, rfl, [], s, n, rfl, rfl, ?_⟩
        cases e with
        | true => exact rest.weaken
        | false => exact rest
      | fold space broken rest => exact .inr ⟨⟨rfl, rfl⟩, fun he => by cases he⟩
      | trail space => exact .inr ⟨by decide, fun _ => rfl⟩

theorem head?_eq_of_squeezed {d : Char} {b : Bool} {s n : Text} (h : Squeezed b s n)
    (hd : isSpace d = false) : n.head? = some d ↔ s.head? = some d := by
  constructor
  · intro hn
    obtain ⟨n', rfl⟩ := List.head?_eq_some_iff.1 hn
    obtain ⟨s', rfl, -⟩ := h.cons_right hd
    rfl
  · intro hs
    obtain ⟨s', rfl⟩ := List.head?_eq_some_iff.1 hs
    obtain ⟨n', rfl, -⟩ := h.cons_left hd
    rfl

theorem quotes_of_squeezed {b : Bool} {s n : Text} (h : Squeezed b s n) : quotes n = quotes s := by
  induction h with
  | nil => rfl
  | char c rest ih =>
    cases hc : isSpace c with
    | true => rw [quotes_space hc, quotes_space hc, ih]
    | false => rw [quotes_cons hc, quotes_cons hc]
  | @fold w s n space broken rest ih =>
    have hw : quotes (w ++ s) = quotes s := by
      rw [quotes, List.dropWhile_append_of_pos space]
      rfl
    rw [hw, quotes_space (by decide), ih]
  | trail space =>
    rw [quotes, quotes, List.dropWhile_eq_nil_iff.2 space]
    rfl

/-! ### The ends of lexemes -/

theorem isSpace_of_isIdentPart {c : Char} (hc : isIdentPart c = true) : isSpace c = false := by
  by_contra hspace
  have hmem := mem_of_isSpace (Bool.not_eq_false _ ▸ hspace)
  simp only [List.mem_cons, List.not_mem_nil, or_false] at hmem
  rcases hmem with rfl | rfl | rfl | rfl | rfl <;> cases hc

theorem endsSolid_takeIdent (b : Char) (t : Text) : (takeIdent t).EndsSolid b := by
  fun_induction takeIdent t generalizing b with
  | case1 => exact .nil b
  | case2 c hc => exact .cons b (isSpace_of_isIdentPart hc) (.nil c)
  | case3 c => exact .nil b
  | case4 c d t hc ih =>
    exact .cons b (isSpace_of_isIdentPart hc) (ih c)
  | case5 c d t _ hescape ih =>
    have hslash : c = '\\' := by simpa using (Bool.and_eq_true_iff.1 hescape).1
    have hfront : EndsSolid b [c, d] := by
      intro w e h _
      have h : [c] ++ [d] = w ++ [e] := h
      obtain ⟨rfl, -⟩ := List.append_inj' h rfl
      exact hslash
    exact hfront.append (ih d)
  | case6 c d t => exact .nil b

theorem endsSolid_takeDigits (b : Char) (t : Text) : (takeDigits t).EndsSolid b :=
  .of_forall b fun c hc => isSpace_of_isIdentPart <| by
    simp [isIdentPart, List.mem_takeWhile_imp hc]

theorem endsSolid_andThen {f g : Text → Text} (hf : ∀ b t, (f t).EndsSolid b)
    (hg : ∀ b t, (g t).EndsSolid b) (b : Char) (t : Text) : (andThen f g t).EndsSolid b :=
  (hf b t).append (hg _ _)

theorem endsSolid_takeSign (b : Char) (t : Text) : (takeSign t).EndsSolid b := by
  cases t with
  | nil => exact .nil b
  | cons c t =>
    simp only [takeSign]
    split
    · rename_i hsign
      refine .cons b ?_ (.nil c)
      rw [Bool.or_eq_true, decide_eq_true_eq, decide_eq_true_eq] at hsign
      rcases hsign with rfl | rfl <;> decide
    · exact .nil b

theorem endsSolid_takeFraction (b : Char) (t : Text) : (takeFraction t).EndsSolid b := by
  cases t with
  | nil => exact .nil b
  | cons c t =>
    simp only [takeFraction]
    split
    · rename_i hpoint
      rw [Bool.and_eq_true, decide_eq_true_eq] at hpoint
      exact .cons b (by rw [hpoint.1]; decide) (endsSolid_takeDigits c t)
    · exact .nil b

theorem endsSolid_takeExponent (b : Char) (t : Text) : (takeExponent t).EndsSolid b := by
  cases t with
  | nil => exact .nil b
  | cons c t =>
    simp only [takeExponent]
    split
    · rename_i hletter
      rw [Bool.and_eq_true, Bool.or_eq_true, decide_eq_true_eq, decide_eq_true_eq] at hletter
      refine .cons b ?_ (endsSolid_andThen endsSolid_takeSign endsSolid_takeDigits c t)
      rcases hletter.1 with rfl | rfl <;> decide
    · exact .nil b

theorem endsSolid_takeUnit (b : Char) (t : Text) : (takeUnit t).EndsSolid b := by
  unfold takeUnit
  split
  · exact endsSolid_takeIdent b t
  · split
    · exact .nil b
    · split
      · rename_i hpercent
        exact .cons b (by rw [hpercent]; decide) (.nil _)
      · exact .nil b

theorem endsSolid_takeNumber (b : Char) (t : Text) : (takeNumber t).EndsSolid b :=
  endsSolid_andThen endsSolid_takeSign (endsSolid_andThen endsSolid_takeDigits
    (endsSolid_andThen endsSolid_takeFraction
      (endsSolid_andThen endsSolid_takeExponent endsSolid_takeUnit))) b t

theorem endsSolid_of_read (b : Char) {s : Text} {kind : TokenKind} {text value : Text}
    (hfront : ∀ c ∈ s.head?, isSpace c = false) (h : read s = some (.token kind text value)) :
    text.EndsSolid b := by
  cases s with
  | nil => cases h
  | cons c s =>
    have hc : isSpace c = false := hfront c rfl
    cases form_of_read h with
    | string => exact .concat b hc _
    | placeholder => exact .concat b (by decide) _
    | number => exact endsSolid_takeNumber b _
    | ident => exact endsSolid_takeIdent b _
    | url => exact .concat b (by decide) _
    | punct => exact .cons b hc (.nil c)

/-- A lexeme without line breaks is read from both texts, and what is left of them is related. -/
theorem read_of_squeezed {s n : Text} {kind : TokenKind} {text value : Text}
    (h : Squeezed false s n) (hfront : ∀ c ∈ s.head?, isSpace c = false)
    (hread : read s = some (.token kind text value))
    (hbreak : ∀ c ∈ text, Text.isBreak c = false) :
    read n = some (.token kind text value) ∧
      Squeezed false (s.drop text.length) (n.drop text.length) := by
  have hsolid := endsSolid_of_read ' ' hfront hread
  obtain ⟨y, rfl⟩ : ∃ y, text ++ y = s := text_prefix_of_read hread
  obtain ⟨z, rfl, hrest⟩ := Squeezed.copy (b := ' ') h hbreak hsolid
  have hbehind : SqueezedBehind (escapesAfter false text) y z := by
    refine ⟨[], y, z, rfl, rfl, ?_⟩
    cases hescapes : escapesAfter false text with
    | false => exact hrest.weaken
    | true => rwa [behind_of_escapesAfter hescapes] at hrest
  refine ⟨alike_squeezed.read hbehind ?_ hread, ?_⟩
  · rintro r r' rfl rfl hr
    obtain ⟨n, hn, hafter⟩ := hrest.cons_left (by decide)
    cases hn
    rwa [quotes_of_squeezed hafter]
  · rw [List.drop_left, List.drop_left]
    exact hrest.weaken

end Lexeme

end ScopedCss
