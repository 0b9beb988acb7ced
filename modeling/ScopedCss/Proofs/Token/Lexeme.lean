/-
Lexemes and gaps are front parts of the text they are read from: nothing is skipped, doubled or made
up (`takeGap_isPrefix`, `text_prefix_of_read`).
-/
import Mathlib.Data.List.Infix
import ScopedCss.Token.Lexeme

namespace ScopedCss

/-- What is taken from the front and what is left make up the whole. -/
theorem Text.append_drop_of_prefix {p t : Text} (h : p <+: t) : p ++ t.drop p.length = t := by
  obtain ⟨r, rfl⟩ := h
  simp

/-- What follows the longest front part of a kind is not of that kind. -/
theorem Text.not_of_drop_takeWhile {p : Char → Bool} {t r : Text} {c : Char}
    (h : t.drop (t.takeWhile p).length = c :: r) : p c = false := by
  induction t with
  | nil => cases h
  | cons d t ih =>
    cases hd : p d with
    | true => exact ih (by simpa [List.takeWhile_cons, hd] using h)
    | false =>
      simp only [List.takeWhile_cons, hd, Bool.false_eq_true, if_false, List.length_nil,
        List.drop_zero, List.cons.injEq] at h
      rw [← h.1, hd]

namespace Lexeme

theorem andThen_isPrefix {f g : Text → Text} (hf : ∀ t, f t <+: t) (hg : ∀ t, g t <+: t)
    (t : Text) : andThen f g t <+: t := by
  have h := List.prefix_append_right_inj (f t) |>.2 (hg (t.drop (f t).length))
  rwa [Text.append_drop_of_prefix (hf t)] at h

theorem takeIdent_isPrefix (t : Text) : takeIdent t <+: t := by
  fun_induction takeIdent t with
  | case1 => exact List.nil_prefix
  | case2 c => exact List.prefix_rfl
  | case3 c => exact List.nil_prefix
  | case4 c d t _ ih => exact List.cons_prefix_cons.2 ⟨rfl, ih⟩
  | case5 c d t _ _ ih =>
    exact List.cons_prefix_cons.2 ⟨rfl, List.cons_prefix_cons.2 ⟨rfl, ih⟩⟩
  | case6 c d t => exact List.nil_prefix

theorem takeDigits_isPrefix (t : Text) : takeDigits t <+: t := List.takeWhile_prefix _

theorem takeSign_isPrefix (t : Text) : takeSign t <+: t := by
  unfold takeSign
  split
  · exact List.nil_prefix
  · split <;> simp

theorem takeFraction_isPrefix (t : Text) : takeFraction t <+: t := by
  unfold takeFraction
  split
  · exact List.nil_prefix
  · split
    · exact List.cons_prefix_cons.2 ⟨rfl, takeDigits_isPrefix _⟩
    · exact List.nil_prefix

theorem takeExponent_isPrefix (t : Text) : takeExponent t <+: t := by
  unfold takeExponent
  split
  · exact List.nil_prefix
  · split
    · exact List.cons_prefix_cons.2 ⟨rfl, andThen_isPrefix takeSign_isPrefix takeDigits_isPrefix _⟩
    · exact List.nil_prefix

theorem takeUnit_isPrefix (t : Text) : takeUnit t <+: t := by
  unfold takeUnit
  split
  · exact takeIdent_isPrefix t
  · split
    · exact List.nil_prefix
    · split <;> simp

theorem takeNumber_isPrefix (t : Text) : takeNumber t <+: t :=
  andThen_isPrefix takeSign_isPrefix
    (andThen_isPrefix takeDigits_isPrefix
      (andThen_isPrefix takeFraction_isPrefix
        (andThen_isPrefix takeExponent_isPrefix takeUnit_isPrefix))) t

theorem takeContent_isPrefix (mark : Char) (t : Text) : takeContent mark t <+: t := by
  fun_induction takeContent mark t with
  | case1 => exact List.nil_prefix
  | case2 c => exact List.nil_prefix
  | case3 c => exact List.prefix_rfl
  | case4 d t => exact List.nil_prefix
  | case5 d t _ ih =>
    exact List.cons_prefix_cons.2 ⟨rfl, List.cons_prefix_cons.2 ⟨rfl, ih⟩⟩
  | case6 d t => exact List.nil_prefix
  | case7 c d t _ _ _ ih => exact List.cons_prefix_cons.2 ⟨rfl, ih⟩

/-- A remark stands before the first `*/`, or is all of the text. -/
theorem takeRemark_spec (t : Text) :
    takeRemark t = t ∨
      ∃ r, t = takeRemark t ++ '*' :: '/' :: r ∧ ¬ ['*', '/'] <:+: takeRemark t ++ ['*'] := by
  fun_induction takeRemark t with
  | case1 => exact .inl rfl
  | case2 r => exact .inr ⟨r, rfl, by simp [List.infix_cons_iff]⟩
  | case3 c t hc ih =>
    rcases ih with ih | ⟨r, ht, hr⟩
    · exact .inl (by rw [ih])
    · refine .inr ⟨r, by rw [List.cons_append, ← ht], ?_⟩
      rw [List.cons_append, List.infix_cons_iff, not_or]
      refine ⟨?_, hr⟩
      -- a `*/` right at the front would have ended the remark there
      intro hfront
      obtain ⟨rfl, hslash⟩ := List.cons_prefix_cons.1 hfront
      cases hremark : takeRemark t with
      | nil => simp [hremark] at hslash
      | cons d remark =>
        rw [hremark] at hslash ht
        obtain ⟨rfl, -⟩ := List.cons_prefix_cons.1 hslash
        exact hc _ rfl ht

theorem exists_of_startsComment {t : Text} (h : startsComment t = true) :
    ∃ u, t = '/' :: '*' :: u := by
  unfold startsComment at h
  split at h
  · exact ⟨_, rfl⟩
  · cases h

/-- A comment in front is closed, at the first `*/` after it opens. -/
theorem takeComment_spec {t : Text} (h : takeComment t ≠ []) :
    ∃ remark r, takeComment t = '/' :: '*' :: remark ++ ['*', '/'] ∧ t = takeComment t ++ r ∧
      ¬ ['*', '/'] <:+: remark ++ ['*'] := by
  unfold takeComment at h ⊢
  split at h
  · rename_i hstart
    simp only [hstart, if_true] at h ⊢
    obtain ⟨u, rfl⟩ := exists_of_startsComment hstart
    simp only [List.drop_succ_cons, List.drop_zero] at h ⊢
    split at h
    · exact absurd rfl h
    · rename_i hopen
      rw [if_neg hopen]
      rcases takeRemark_spec u with hu | ⟨r, hu, hr⟩
      · rw [hu, List.drop_length] at hopen
        exact absurd rfl hopen
      · exact ⟨takeRemark u, r, rfl, by simpa using hu, hr⟩
  · exact absurd rfl h

theorem takeGap_isPrefix (t : Text) : takeGap t <+: t := by
  fun_induction takeGap t with
  | case1 => exact List.nil_prefix
  | case2 c r _ ih => exact List.cons_prefix_cons.2 ⟨rfl, ih⟩
  | case3 c r => exact List.nil_prefix
  | case4 c r _ hcomment _ ih =>
    obtain ⟨-, rest, -, hrest, -⟩ := takeComment_spec hcomment
    have h := (List.prefix_append_right_inj (takeComment (c :: r))).2 ih
    rwa [Text.append_drop_of_prefix ⟨rest, hrest.symm⟩] at h

theorem readString_isPrefix (mark : Char) (t : Text) :
    (readString mark t).text <+: mark :: t := by
  have hcontent := takeContent_isPrefix mark t
  simp only [readString]
  split
  · rename_i c r hr
    split
    · rename_i hc
      subst hc
      have ht := Text.append_drop_of_prefix hcontent
      rw [hr] at ht
      exact ⟨r, by simp only [text, List.cons_append, List.append_assoc, List.nil_append, ht]⟩
    · exact List.cons_prefix_cons.2 ⟨rfl, hcontent⟩
  · exact List.cons_prefix_cons.2 ⟨rfl, hcontent⟩

theorem readPlaceholder_isPrefix (t : Text) :
    (readPlaceholder t).text <+: '$' :: '\x7b' :: t := by
  have hname : t.takeWhile isNamePart <+: t := List.takeWhile_prefix _
  have ht := Text.append_drop_of_prefix hname
  simp only [readPlaceholder]
  split
  · rename_i c name r hc hr
    rw [hr] at ht
    exact ⟨r, by simp only [text, List.cons_append, List.append_assoc, List.nil_append, ht]⟩
  · exact List.cons_prefix_cons.2 ⟨rfl, List.cons_prefix_cons.2 ⟨rfl, hname⟩⟩

theorem readIdent_isPrefix (t : Text) : (readIdent t).text <+: t := by
  have hident := takeIdent_isPrefix t
  have ht := Text.append_drop_of_prefix hident
  simp only [readIdent]
  split
  · rename_i r hr
    rw [hr] at ht
    split
    · split
      · exact ⟨[], by simp only [text, List.append_nil, ht]⟩
      · rename_i hopen
        obtain ⟨c, rest, hrest⟩ := List.exists_cons_of_ne_nil hopen
        have hcontent := Text.append_drop_of_prefix (List.takeWhile_prefix (· ≠ ')') (l := r))
        have hclose : c = ')' := by simpa using Text.not_of_drop_takeWhile hrest
        subst hclose
        rw [hrest] at hcontent
        refine ⟨rest, ?_⟩
        simp only [text, List.append_assoc, List.cons_append, List.nil_append, hcontent, ht]
    · exact hident
  · exact hident

/-- A lexeme is what the text begins with. -/
theorem text_prefix_of_read {t : Text} {x : Lexeme} (h : read t = some x) : x.text <+: t := by
  cases t with
  | nil => cases h
  | cons c t =>
    simp only [read, Option.some.injEq] at h
    subst h
    split
    · exact List.prefix_rfl
    split
    · exact readString_isPrefix c t
    split
    · rename_i hsign
      simp only [Bool.and_eq_true, decide_eq_true_eq] at hsign
      obtain ⟨rfl, hbrace⟩ := hsign
      obtain ⟨r, rfl⟩ := List.head?_eq_some_iff.1 hbrace
      exact readPlaceholder_isPrefix r
    split
    · exact takeNumber_isPrefix _
    split
    · exact readIdent_isPrefix _
    · simp [text]

end Lexeme

end ScopedCss
