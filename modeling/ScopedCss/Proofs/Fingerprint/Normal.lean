/-
The normal form of a source reads as the source does. Normalizing squeezes white space around line
breaks and nothing else (`Fingerprint.squeezed_normalize`), unless a line break is escaped; so the
tokens are the same but for their places, and so is what is made of them
(`Sheet.parse_normalize`).
-/
import ScopedCss.Fingerprint.Normal
import ScopedCss.Proofs.Sheet.Progress
import ScopedCss.Proofs.Sheet.Relocation

namespace ScopedCss

open Lexeme (isSpace)

namespace Text

/-! ### Lines -/

/-- A text that is not empty has a first line, and behind its break the other lines. -/
theorem exists_line {s : Text} (h : s ≠ []) :
    ∃ line brk rest, s = line ++ brk ++ rest ∧ lines s = line :: lines rest ∧
      (∀ c ∈ brk, isBreak c = true) ∧ (brk = [] → rest = []) := by
  fun_induction lines s with
  | case1 => exact absurd rfl h
  | case2 t ih => exact ⟨[], ['\r', '\n'], t, rfl, rfl, by simp [isBreak], nofun⟩
  | case3 c t hne hc ih => exact ⟨[], [c], t, rfl, rfl, by simpa using hc, nofun⟩
  | case4 c t hne hc hlines ih =>
    have ht : t = [] := by
      by_contra hnil
      obtain ⟨line, brk, rest, -, hfirst, -⟩ := ih hnil
      rw [hlines] at hfirst
      cases hfirst
    subst ht
    exact ⟨[c], [], [], rfl, rfl, by simp, fun _ => rfl⟩
  | case5 c t hne hc line others hlines ih =>
    have ht : t ≠ [] := by
      rintro rfl
      cases hlines
    obtain ⟨line', brk, rest, hsplit, hfirst, hbrk, hend⟩ := ih ht
    rw [hlines] at hfirst
    cases hfirst
    exact ⟨c :: line, brk, rest, by rw [hsplit]; rfl, rfl, hbrk, hend⟩

/-- A text is what stripping leaves of it, between blanks. -/
theorem exists_strip (t : Text) :
    ∃ u v, t = u ++ strip t ++ v ∧ (∀ c ∈ u, isBlank c = true) ∧ ∀ c ∈ v, isBlank c = true := by
  refine ⟨t.takeWhile isBlank, (((stripLeft t).reverse).takeWhile isBlank).reverse, ?_, ?_, ?_⟩
  · have hright : strip t ++ ((stripLeft t).reverse.takeWhile isBlank).reverse = stripLeft t := by
      rw [strip, stripRight, ← List.reverse_append, List.takeWhile_append_dropWhile,
        List.reverse_reverse]
    rw [List.append_assoc, hright, stripLeft, List.takeWhile_append_dropWhile]
  · exact fun c hc => List.mem_takeWhile_imp hc
  · exact fun c hc => List.mem_takeWhile_imp (List.mem_reverse.1 hc)

theorem Squeezed.append {b : Bool} {x s n : Text} (h : Squeezed false s n) (hx : x ≠ [])
    (hlast : x.getLast? ≠ some '\\') : Squeezed b (x ++ s) (x ++ n) := by
  induction x generalizing b with
  | nil => exact absurd rfl hx
  | cons c x ih =>
    cases x with
    | nil =>
      have hc : decide (c = '\\') = false := by simpa using hlast
      exact .char c (hc ▸ h)
    | cons d x => exact .char c (ih (by simp) (by simpa using hlast))

/-- Only white space comes to nothing. -/
theorem Squeezed.space {b : Bool} {s n : Text} (h : Squeezed b s n) (hn : n = []) :
    ∀ c ∈ s, isSpace c = true := by
  cases h with
  | nil => simp
  | char c rest => cases hn
  | fold space broken rest => cases hn
  | trail space => exact space

/-- A line in front of the others: what stands between is folded, or dropped if no other is kept. -/
theorem Squeezed.line {line gap t : Text} {kept : List Text} (hline : line ≠ [])
    (hlast : line.getLast? ≠ some '\\') (hgap : ∀ c ∈ gap, isSpace c = true)
    (hbreak : kept ≠ [] → ∃ c ∈ gap, isBreak c = true)
    (h : Squeezed false t (join ['\n'] kept)) :
    Squeezed false (line ++ (gap ++ t)) (join ['\n'] (line :: kept)) := by
  cases kept with
  | nil =>
    have ht := h.space rfl
    have htrail : Squeezed false (gap ++ t) [] := .trail fun c hc => by
      rcases List.mem_append.1 hc with hc | hc
      · exact hgap c hc
      · exact ht c hc
    simpa [join] using htrail.append hline hlast
  | cons next kept =>
    have hfold := Squeezed.fold hgap (hbreak (by simp)) h
    simpa [join, List.intercalate] using hfold.append hline hlast

end Text

namespace Fingerprint

open Text (Squeezed)

/-- If no line ends in a backslash, each is stripped, and those that are blank are dropped. -/
theorem normalLines_eq {lines : List Text}
    (h : ∀ line ∈ lines, (Text.strip line).getLast? ≠ some '\\') :
    normalLines false lines = (lines.map Text.strip).filter (!·.isEmpty) := by
  induction lines with
  | nil => rfl
  | cons line lines ih =>
    obtain ⟨hline, hlines⟩ := List.forall_mem_cons.1 h
    simp only [normalLines, hline, decide_false, ih hlines, Bool.false_eq_true, if_false,
      Bool.not_false, Bool.and_true, List.map_cons, List.filter_cons]
    cases (Text.strip line).isEmpty <;> rfl

theorem squeezed_lines {s : Text}
    (hspace : ∀ c ∈ s, Text.isBlank c = true ∨ Text.isBreak c = true → isSpace c = true)
    (hlines : ∀ line ∈ Text.lines s, (Text.strip line).getLast? ≠ some '\\') :
    ∃ w t, s = w ++ t ∧ (∀ c ∈ w, isSpace c = true) ∧
      Squeezed false t
        (Text.join ['\n'] (((Text.lines s).map Text.strip).filter (!·.isEmpty))) := by
  induction hlength : s.length using Nat.strong_induction_on generalizing s with
  | _ k ih =>
    subst hlength
    by_cases hs : s = []
    · subst hs
      exact ⟨[], [], rfl, by simp, .nil⟩
    obtain ⟨line, brk, rest, hsplit, hfirst, hbrk, hend⟩ := Text.exists_line hs
    obtain ⟨u, v, hstrip, hu, hv⟩ := Text.exists_strip line
    rw [hfirst] at hlines ⊢
    obtain ⟨hline, hothers⟩ := List.forall_mem_cons.1 hlines
    have hlt : rest.length < s.length := by
      by_cases hbrk : brk = []
      · rw [hend hbrk]
        exact List.length_pos_iff.2 hs
      · have hpos := List.length_pos_iff.2 hbrk
        simp only [hsplit, List.length_append]
        omega
    obtain ⟨w, t, hrest, hw, hsqueezed⟩ :=
      ih _ hlt (fun c hc => hspace c (by simp [hsplit, hc])) hothers rfl
    -- all that surrounds the stripped line is white space
    have huspace : ∀ c ∈ u, isSpace c = true := fun c hc =>
      hspace c (by rw [hsplit, hstrip]; simp [hc]) (.inl (hu c hc))
    have hvspace : ∀ c ∈ v, isSpace c = true := fun c hc =>
      hspace c (by rw [hsplit, hstrip]; simp [hc]) (.inl (hv c hc))
    have hbrkspace : ∀ c ∈ brk, isSpace c = true := fun c hc =>
      hspace c (by simp [hsplit, hc]) (.inr (hbrk c hc))
    have hbetween : ∀ c ∈ v ++ brk ++ w, isSpace c = true := by
      simp only [List.mem_append]
      rintro c ((hc | hc) | hc)
      · exact hvspace c hc
      · exact hbrkspace c hc
      · exact hw c hc
    have hsource : s = u ++ (Text.strip line ++ (v ++ brk ++ w ++ t)) := by
      rw [hsplit, hrest]
      conv_lhs => rw [hstrip]
      simp only [List.append_assoc]
    rw [List.map_cons, List.filter_cons]
    by_cases hblank : Text.strip line = []
    · refine ⟨u ++ (v ++ brk ++ w), t, ?_, ?_, ?_⟩
      · rw [hsource, hblank]
        simp only [List.nil_append, List.append_assoc]
      · intro c hc
        rcases List.mem_append.1 hc with hc | hc
        · exact huspace c hc
        · exact hbetween c hc
      · simpa [hblank] using hsqueezed
    · refine ⟨u, _, hsource, huspace, ?_⟩
      rw [if_pos (by simpa using hblank)]
      refine Text.Squeezed.line hblank hline hbetween (fun hkept => ?_) hsqueezed
      -- if another line is kept, a break stands in front of it
      obtain ⟨c, brk', hc⟩ : ∃ c brk', brk = c :: brk' := List.exists_cons_of_ne_nil fun hnil => by
        rw [hend hnil] at hkept
        exact hkept rfl
      exact ⟨c, by simp [hc], hbrk c (by simp [hc])⟩

/-- The normal form of a source is the source with white space around line breaks squeezed, and none
in front. -/
theorem squeezed_normalize {source : Text}
    (hspace : ∀ c ∈ source, Text.isBlank c = true ∨ Text.isBreak c = true → isSpace c = true)
    (hlines : ∀ line ∈ Text.lines source, (Text.strip line).getLast? ≠ some '\\') :
    ∃ w t, source = w ++ t ∧ (∀ c ∈ w, isSpace c = true) ∧ Squeezed false t (normalize source) := by
  rw [normalize, normalLines_eq hlines]
  exact squeezed_lines hspace hlines

end Fingerprint

/-- A source whose indentation only keeps tokens apart: its tokens can all be read and hold no line
break, its only blanks and line breaks are those that separate tokens, and no line ends in a
backslash. -/
structure Text.FreelyIndented (source : Text) : Prop where
  tokens : (Text.tokenize source).failure = none
  breaks : ∀ t ∈ (Text.tokenize source).tokens, ∀ c ∈ t.text, Text.isBreak c = false
  spaces : ∀ c ∈ source, Text.isBlank c = true ∨ Text.isBreak c = true →
    c ∈ [' ', '\t', '\n', '\r', '\x0c']
  lines : ∀ line ∈ Text.lines source, (Text.strip line).getLast? ≠ some '\\'

theorem Text.FreelyIndented.of_all {source : Text} (tokens : (Text.tokenize source).failure = none)
    (breaks : ((Text.tokenize source).tokens.all fun t => t.text.all (!Text.isBreak ·)) = true)
    (spaces : (source.all fun c => !(Text.isBlank c || Text.isBreak c) ||
      [' ', '\t', '\n', '\r', '\x0c'].contains c) = true)
    (lines : ∀ line ∈ Text.lines source, (Text.strip line).getLast? ≠ some '\\') :
    source.FreelyIndented where
  tokens := tokens
  breaks := by simpa using breaks
  spaces c hc hblank := by
    have hspace := List.all_eq_true.1 spaces c hc
    rcases hblank with hblank | hblank <;> simpa [hblank] using hspace
  lines := lines

namespace Sheet

open Text (Squeezed FreelyIndented)
open Lexeme (dropGap)

/-- The tokens of the normal form are those of the source, places and white space in front apart. -/
theorem tokens_normalize (place : Location) {source : Text} (h : FreelyIndented source) :
    (Text.tokenize (Fingerprint.normalize source)).failure = none ∧
      Token.flushLeft
          ((Text.tokenize (Fingerprint.normalize source)).tokens.map (·.movedTo place)) =
        Token.flushLeft ((Text.tokenize source).tokens.map (·.movedTo place)) := by
  have hspace : ∀ c ∈ source, Text.isBlank c = true ∨ Text.isBreak c = true → isSpace c = true := by
    intro c hc hblank
    simpa [isSpace, or_assoc] using h.spaces c hc hblank
  obtain ⟨w, t, hsource, hw, hsqueezed⟩ := Fingerprint.squeezed_normalize hspace h.lines
  have hgap : dropGap source = dropGap t := by rw [hsource, Lexeme.dropGap_append_space hw]
  have hrest : Squeezed false (dropGap source) (dropGap (Fingerprint.normalize source)) :=
    hgap ▸ (Lexeme.dropGap_of_squeezed hsqueezed).1
  exact Lexer.tokens_of_gap place rfl rfl hrest h.tokens h.breaks

/-- The normal form of a source reads as the source does, places apart. -/
theorem moved_parse_normalize (place : Location) {source : Text} (h : FreelyIndented source) :
    moved place (Sheet.movedTo place) (parse (Fingerprint.normalize source)) =
      moved place (Sheet.movedTo place) (parse source) := by
  obtain ⟨htokens, hsame⟩ := tokens_normalize place h
  rw [moved_parse place h.tokens, moved_parse place htokens, hsame]

/-- Normalizing does not change what a source reads as: the source and its normal form read as the
same sheet, places apart, or fail with the same fault of the grammar. The tokens of the source can
all be read and hold no line break; its only blanks and line breaks are those that separate tokens;
and no line ends in a backslash. -/
theorem parse_normalize {source : Text} (htokens : (Text.tokenize source).failure = none)
    (hbreaks : ∀ t ∈ (Text.tokenize source).tokens, ∀ c ∈ t.text, Text.isBreak c = false)
    (hspaces : ∀ c ∈ source, Text.isBlank c = true ∨ Text.isBreak c = true →
      c ∈ [' ', '\t', '\n', '\r', '\x0c'])
    (hlines : ∀ line ∈ Text.lines source, (Text.strip line).getLast? ≠ some '\\') :
    (∃ a b, parse source = .ok a ∧ parse (Fingerprint.normalize source) = .ok b ∧
        a.unplaced = b.unplaced) ∨
      ∃ fault l l', parse source = .error (.grammar fault l) ∧
        parse (Fingerprint.normalize source) = .error (.grammar fault l') := by
  have hindented : FreelyIndented source := ⟨htokens, hbreaks, hspaces, hlines⟩
  have place := Location.endOf source
  have htokens' := (tokens_normalize place hindented).1
  have hmoved := moved_parse_normalize place hindented
  cases hread : parse source with
  | ok a =>
    cases hread' : parse (Fingerprint.normalize source) with
    | error e => rw [hread, hread'] at hmoved; cases hmoved
    | ok b =>
      rw [hread, hread'] at hmoved
      have hsheet : Sheet.movedTo place b = Sheet.movedTo place a := Except.ok.inj hmoved
      refine .inl ⟨a, b, rfl, rfl, ?_⟩
      rw [← Sheet.unplaced_movedTo place a, ← hsheet, Sheet.unplaced_movedTo]
  | error e =>
    cases hread' : parse (Fingerprint.normalize source) with
    | ok b => rw [hread, hread'] at hmoved; cases hmoved
    | error e' =>
      obtain ⟨fault, l, rfl⟩ := grammar_of_parse htokens hread
      obtain ⟨fault', l', rfl⟩ := grammar_of_parse htokens' hread'
      rw [hread, hread'] at hmoved
      cases hmoved
      exact .inr ⟨fault, l, l', rfl, rfl⟩

/-- Two selectors over two lines, blank lines, blanks at both ends of lines and a comment that goes
over a line break. -/
def indentedSource : Text :=
  "\n  .a,\r\n\t.b > c \x7b  \n\n    color: $\x7bv\x7d ; ".toList ++
    "/* x\n  y */\n\t&:d \x7b e: f \x7d\n  \x7d\n".toList

theorem parse_normalize_indentedSource :
    Fingerprint.normalize indentedSource =
        ".a,\n.b > c \x7b\ncolor: $\x7bv\x7d ; /* x\ny */\n&:d \x7b e: f \x7d\n\x7d".toList ∧
      ∃ a b, parse indentedSource = .ok a ∧ parse (Fingerprint.normalize indentedSource) = .ok b ∧
        a.unplaced = b.unplaced := by
  have hread : (parse indentedSource).isOk = true := by decide +kernel
  have hindented : FreelyIndented indentedSource :=
    .of_all (by decide +kernel) (by decide +kernel) (by decide +kernel) (by decide +kernel)
  refine ⟨by decide +kernel, ?_⟩
  have hsame := parse_normalize hindented.tokens hindented.breaks hindented.spaces hindented.lines
  rcases hsame with hsheets | ⟨fault, l, l', hfault, -⟩
  · exact hsheets
  · rw [hfault] at hread
    cases hread

end Sheet

end ScopedCss
