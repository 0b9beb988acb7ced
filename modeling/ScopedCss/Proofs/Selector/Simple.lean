/-
Simple selectors. How many tokens make one depends on these tokens alone, up to a parenthesis right
behind them (`Selector.exists_of_simpleLength`), and their brackets are closed: `Token.through` says
what the depth of brackets is behind tokens that do not end a selector list, and what goes through
is passed over when a list is divided (`Selector.Groups.split_through`) or recognized
(`Sheet.startsRule_through`).
-/
import ScopedCss.Proofs.Selector.Relocation
import ScopedCss.Proofs.Token.Standing
import ScopedCss.Sheet.Parser

namespace ScopedCss

namespace Token

theorem isMark_of_kind {t : Token} (h : t.kind ≠ .punct) (c : Char) : t.isMark c = false := by
  simp [isMark, h]

theorem isMark_congr {t t' : Token} (hkind : t'.kind = t.kind) (htext : t'.text = t.text)
    (c : Char) : t'.isMark c = t.isMark c := by
  rw [isMark, isMark, hkind, htext]

theorem isMark_eq {t : Token} {c : Char} (h : t.isMark c = true) (d : Char) :
    t.isMark d = decide (c = d) := by
  simp only [isMark, Bool.and_eq_true, decide_eq_true_eq] at h
  simp [isMark, h]

theorem isCloser_of_isOpener {t : Token} (h : t.isOpener = true) : t.isCloser = false := by
  simp only [isOpener, Bool.or_eq_true] at h
  rcases h with h | h <;> simp [isCloser, isMark_eq h]

theorem isMark_of_bracket {t : Token} (h : t.isOpener = true ∨ t.isCloser = true) {c : Char}
    (hc : c ∉ ['(', '[', ')', ']']) : t.isMark c = false := by
  simp only [isOpener, isCloser, Bool.or_eq_true] at h
  simp only [List.mem_cons, List.not_mem_nil, or_false, not_or] at hc
  obtain ⟨h₁, h₂, h₃, h₄⟩ := hc
  rcases h with (h | h) | (h | h) <;> simp [isMark_eq h, eq_comm, *]

/-- Whether a token outside brackets ends a selector. -/
def endsSelector (t : Token) : Bool := t.isMark ',' || t.isMark '\x7b' || t.isTerminator

@[simp] theorem endsSelector_movedTo (place : Location) (t : Token) :
    (t.movedTo place).endsSelector = t.endsSelector := by
  cases t
  rfl

/-- The depth of brackets behind tokens that do not end a selector: no bracket closes what is not
open, and nothing outside brackets is a comma, a brace or a `;`. -/
def through (depth : Nat) : List Token → Option Nat
  | [] => some depth
  | t :: ts =>
    if t.isOpener then through (depth + 1) ts
    else if t.isCloser then if depth = 0 then none else through (depth - 1) ts
    else if depth = 0 && t.endsSelector then none
    else through depth ts

section Through

variable {t : Token} {depth : Nat}

theorem through_opener (h : t.isOpener = true) (ts : List Token) :
    through depth (t :: ts) = through (depth + 1) ts := by
  rw [through, if_pos h]

theorem through_closer (h : t.isCloser = true) (ts : List Token) :
    through (depth + 1) (t :: ts) = through depth ts := by
  have hopen : t.isOpener = false := by
    by_contra hopen
    rw [isCloser_of_isOpener (by simpa using hopen)] at h
    cases h
  simp [through, hopen, h]

theorem through_plain (hopen : t.isOpener = false) (hclose : t.isCloser = false)
    (hend : depth = 0 → t.endsSelector = false) (ts : List Token) :
    through depth (t :: ts) = through depth ts := by
  rw [through, if_neg (by simp [hopen]), if_neg (by simp [hclose]), if_neg]
  simpa using hend

/-- The three ways to get past a token. -/
theorem through_cons_eq_some {ts : List Token} {d : Nat} (h : through depth (t :: ts) = some d) :
    t.isOpener = true ∧ through (depth + 1) ts = some d ∨
      t.isOpener = false ∧ t.isCloser = true ∧ depth ≠ 0 ∧ through (depth - 1) ts = some d ∨
      t.isOpener = false ∧ t.isCloser = false ∧ (depth = 0 → t.endsSelector = false) ∧
        through depth ts = some d := by
  rw [through] at h
  split at h
  · rename_i hopen
    exact .inl ⟨hopen, h⟩
  rename_i hopen
  split at h
  · rename_i hclose
    split at h
    · cases h
    · rename_i hdepth
      exact .inr (.inl ⟨by simpa using hopen, hclose, hdepth, h⟩)
  rename_i hclose
  split at h
  · cases h
  · rename_i hend
    refine .inr (.inr ⟨by simpa using hopen, by simpa using hclose, ?_, h⟩)
    simpa using hend

end Through

theorem through_append (depth : Nat) (ts us : List Token) :
    through depth (ts ++ us) = (through depth ts).bind (through · us) := by
  induction ts generalizing depth with
  | nil => rfl
  | cons t ts ih =>
    simp only [List.cons_append, through, ih]
    split
    · rfl
    split
    · split <;> rfl
    · split <;> rfl

theorem through_movedTo (place : Location) (depth : Nat) (ts : List Token) :
    through depth (ts.map (·.movedTo place)) = through depth ts := by
  induction ts generalizing depth with
  | nil => rfl
  | cons t ts ih =>
    simp only [List.map_cons, through, isOpener_movedTo, isCloser_movedTo, endsSelector_movedTo, ih]

theorem through_led (b : Bool) (depth : Nat) (ts : List Token) :
    through depth (led b ts) = through depth ts := by
  cases ts <;> rfl

/-- Tokens whose brackets are closed do not end with one that opens. -/
theorem closed_of_through {ts : List Token} (h : through 0 ts = some 0) : Closed ts := by
  intro t ht
  obtain ⟨us, rfl⟩ := List.getLast?_eq_some_iff.1 ht
  rw [through_append, Option.bind_eq_some_iff] at h
  obtain ⟨depth, -, hlast⟩ := h
  refine Bool.eq_false_iff.2 fun hmark => ?_
  rw [through_opener (by simp [isOpener, hmark])] at hlast
  cases hlast

end Token

namespace Selector

open Token (through)

/-- Tokens that do not begin with a parenthesis right behind what precedes them. -/
def Detached (ts : List Token) : Prop := ∀ t ∈ ts.head?, t.isMark '(' = true → t.spaced = true

/-- Tokens that `f` counts in front of whatever is as detached as `rest`, and whose brackets are
closed. -/
structure Counted (f : List Token → Except Error Nat) (us rest : List Token) : Prop where
  count : ∀ more, (Detached rest → Detached more) → f (us ++ more) = .ok us.length
  closed : through 0 us = some 0

theorem exists_of_bracketLength {opening : Token} {closer : Char} {outer : List Char}
    {ts : List Token} {n : Nat} (h : bracketLength opening closer outer ts = .ok n) :
    ∃ us rest, ts = us ++ rest ∧ n = us.length ∧
      (∀ opening more, bracketLength opening closer outer (us ++ more) = .ok us.length) ∧
      ∀ depth, through (depth + outer.length + 1) us = some depth := by
  induction ts generalizing closer outer n with
  | nil => cases h
  | cons t ts ih =>
    unfold bracketLength at h
    split at h
    · rename_i hopen
      obtain ⟨m, hm, rfl⟩ := map_eq_ok.1 h
      obtain ⟨us, rest, rfl, rfl, hagain, hclosed⟩ := ih hm
      refine ⟨t :: us, rest, rfl, rfl, fun opening more => ?_, fun depth => ?_⟩
      · unfold bracketLength
        simp only [List.cons_append, if_pos hopen, hagain]
        rfl
      · rw [Token.through_opener hopen]
        exact hclosed depth
    rename_i hopen
    split at h
    · rename_i hclose
      split at h
      · rename_i hmark
        split at h
        · cases h
          refine ⟨[t], ts, rfl, rfl, fun opening more => ?_, fun depth => ?_⟩
          · unfold bracketLength
            simp only [List.cons_append, if_neg hopen, if_pos hclose, if_pos hmark]
            rfl
          · exact Token.through_closer hclose []
        · obtain ⟨m, hm, rfl⟩ := map_eq_ok.1 h
          obtain ⟨us, rest, rfl, rfl, hagain, hclosed⟩ := ih hm
          refine ⟨t :: us, rest, rfl, rfl, fun opening more => ?_, fun depth => ?_⟩
          · unfold bracketLength
            simp only [List.cons_append, if_neg hopen, if_pos hclose, if_pos hmark, hagain]
            rfl
          · rw [Token.through_closer hclose]
            exact hclosed depth
      · cases h
    · rename_i hclose
      obtain ⟨m, hm, rfl⟩ := map_eq_ok.1 h
      obtain ⟨us, rest, rfl, rfl, hagain, hclosed⟩ := ih hm
      refine ⟨t :: us, rest, rfl, rfl, fun opening more => ?_, fun depth => ?_⟩
      · unfold bracketLength
        simp only [List.cons_append, if_neg hopen, if_neg hclose, hagain]
        rfl
      · rw [Token.through_plain (by simpa using hopen) (by simpa using hclose) (by omega)]
        exact hclosed depth

theorem argumentLength_of_detached {ts : List Token} (h : Detached ts) :
    argumentLength ts = .ok 0 := by
  cases ts with
  | nil => rfl
  | cons t ts =>
    rw [argumentLength, if_neg]
    intro hparen
    simp only [Bool.and_eq_true, Bool.not_eq_true'] at hparen
    rw [h t rfl hparen.1] at hparen
    cases hparen.2

theorem exists_of_argumentLength {ts : List Token} {n : Nat} (h : argumentLength ts = .ok n) :
    ∃ us rest, ts = us ++ rest ∧ n = us.length ∧ Counted argumentLength us rest := by
  have hnone : ∀ rest, Detached rest → Counted argumentLength [] rest := fun rest hrest =>
    ⟨fun more hmore => argumentLength_of_detached (hmore hrest), rfl⟩
  cases ts with
  | nil =>
    cases h
    exact ⟨[], [], rfl, rfl, hnone [] nofun⟩
  | cons t ts =>
    rw [argumentLength] at h
    split at h
    · rename_i hparen
      obtain ⟨m, hm, rfl⟩ := map_eq_ok.1 h
      obtain ⟨us, rest, rfl, rfl, hagain, hclosed⟩ := exists_of_bracketLength hm
      refine ⟨t :: us, rest, rfl, rfl, fun more _ => ?_, ?_⟩
      · rw [List.cons_append, argumentLength, if_pos hparen, hagain]
        rfl
      · rw [Bool.and_eq_true] at hparen
        rw [Token.through_opener (by simp [Token.isOpener, hparen.1])]
        exact hclosed 0
    · rename_i hparen
      cases h
      refine ⟨[], t :: ts, rfl, rfl, hnone _ ?_⟩
      rintro u ⟨⟩ hmark
      simpa [hmark] using hparen

theorem through_ident {t : Token} (h : t.kind ≠ .punct) (depth : Nat) (ts : List Token) :
    through depth (t :: ts) = through depth ts := by
  have hmark := Token.isMark_of_kind h
  refine Token.through_plain ?_ ?_ (fun _ => ?_) ts
  · simp [Token.isOpener, hmark]
  · simp [Token.isCloser, hmark]
  · simp [Token.endsSelector, Token.isTerminator, hmark]

theorem exists_of_pseudoNameLength {colon : Token} {ts : List Token} {n : Nat}
    (h : pseudoNameLength colon ts = .ok n) :
    ∃ us rest, ts = us ++ rest ∧ n = us.length ∧
      ∀ colon, Counted (pseudoNameLength colon) us rest := by
  cases ts with
  | nil => cases h
  | cons t ts =>
    rw [pseudoNameLength] at h
    split at h
    · rename_i hname
      obtain ⟨m, hm, rfl⟩ := map_eq_ok.1 h
      obtain ⟨us, rest, rfl, rfl, hus⟩ := exists_of_argumentLength hm
      refine ⟨t :: us, rest, rfl, rfl, fun colon => ⟨fun more hmore => ?_, ?_⟩⟩
      · rw [List.cons_append, pseudoNameLength, if_pos hname, hus.count more hmore]
        rfl
      · rw [Bool.and_eq_true, decide_eq_true_eq] at hname
        rw [through_ident (by rw [hname.1]; decide)]
        exact hus.closed
    · cases h

theorem exists_of_pseudoLength {colon : Token} {ts : List Token} {n : Nat}
    (h : pseudoLength colon ts = .ok n) :
    ∃ us rest, ts = us ++ rest ∧ n = us.length ∧
      ∀ colon, Counted (pseudoLength colon) us rest := by
  cases ts with
  | nil => cases h
  | cons t ts =>
    rw [pseudoLength] at h
    split at h
    · rename_i hcolon
      obtain ⟨m, hm, rfl⟩ := map_eq_ok.1 h
      obtain ⟨us, rest, rfl, rfl, hus⟩ := exists_of_pseudoNameLength hm
      refine ⟨t :: us, rest, rfl, rfl, fun colon => ⟨fun more hmore => ?_, ?_⟩⟩
      · rw [List.cons_append, pseudoLength, if_pos hcolon, (hus colon).count more hmore]
        rfl
      · rw [Bool.and_eq_true] at hcolon
        have hmark := Token.isMark_eq hcolon.1
        rw [Token.through_plain (by simp [Token.isOpener, hmark]) (by simp [Token.isCloser, hmark])
          (by simp [Token.endsSelector, Token.isTerminator, hmark])]
        exact (hus t).closed
    · rename_i hcolon
      obtain ⟨us, rest, hts, rfl, hus⟩ := exists_of_pseudoNameLength h
      cases us with
      | nil => cases (hus colon).count [] (by rintro - t ⟨⟩)
      | cons u us =>
        obtain ⟨rfl, rfl⟩ := List.cons.inj hts
        refine ⟨t :: us, rest, rfl, rfl, fun colon => ⟨fun more hmore => ?_, (hus t).closed⟩⟩
        rw [List.cons_append, pseudoLength, if_neg hcolon]
        exact (hus colon).count more hmore

theorem exists_of_nameLength {t : Token} {ts : List Token} {n : Nat}
    (h : nameLength t ts = .ok n) :
    ∃ us rest, ts = us ++ rest ∧ n = us.length ∧ ∀ t, Counted (nameLength t) us rest := by
  cases ts with
  | nil => cases h
  | cons u ts =>
    rw [nameLength] at h
    split at h
    · rename_i hname
      cases h
      refine ⟨[u], ts, rfl, rfl, fun t => ⟨fun more _ => ?_, ?_⟩⟩
      · rw [List.singleton_append, nameLength, if_pos hname]
        rfl
      · simp only [Bool.and_eq_true, Bool.or_eq_true, decide_eq_true_eq] at hname
        rw [through_ident (by rcases hname.2 with h | h <;> rw [h] <;> decide)]
        rfl
    · cases h

/-- How many tokens belong to a simple selector depends on these tokens, and their brackets are
closed. -/
theorem exists_of_simpleLength {t : Token} {ts : List Token} {n : Nat}
    (h : simpleLength t ts = .ok n) (hgroup : through 0 (t :: ts) ≠ none) :
    ∃ us rest, ts = us ++ rest ∧ n = us.length ∧ through 0 (t :: us) = some 0 ∧
      ∀ t' : Token, t'.kind = t.kind → t'.text = t.text → ∀ more,
        (Detached rest → Detached more) → simpleLength t' (us ++ more) = .ok us.length := by
  have hmarks (t' : Token) (hkind : t'.kind = t.kind) (htext : t'.text = t.text) :=
    Token.isMark_congr hkind htext
  unfold simpleLength at h
  split at h
  · rename_i hopen
    obtain ⟨us, rest, rfl, rfl, hagain, hclosed⟩ := exists_of_bracketLength h
    refine ⟨us, rest, rfl, rfl, ?_, fun t' hkind htext more _ => ?_⟩
    · rw [Token.through_opener hopen]
      exact hclosed 0
    · simp only [simpleLength, closerOf, Token.isOpener, hmarks t' hkind htext] at hopen ⊢
      rw [if_pos hopen]
      exact hagain t' more
  rename_i hopen
  have hplain : ∀ us, through 0 us = some 0 → through 0 (t :: us) = some 0 := by
    intro us hus
    obtain ⟨d, hd⟩ := Option.ne_none_iff_exists'.1 hgroup
    obtain ⟨ho, -⟩ | ⟨-, -, hdepth, -⟩ | ⟨ho, hc, hend, -⟩ := Token.through_cons_eq_some hd
    · exact absurd ho hopen
    · exact absurd rfl hdepth
    · rw [Token.through_plain ho hc hend, hus]
  split at h
  · rename_i hname
    obtain ⟨us, rest, rfl, rfl, hus⟩ := exists_of_nameLength h
    refine ⟨us, rest, rfl, rfl, hplain us (hus t).closed, fun t' hkind htext more hmore => ?_⟩
    simp only [simpleLength, Token.isOpener, hmarks t' hkind htext] at hopen ⊢
    rw [if_neg hopen, if_pos hname]
    exact (hus t').count more hmore
  rename_i hname
  split at h
  · rename_i hcolon
    obtain ⟨us, rest, rfl, rfl, hus⟩ := exists_of_pseudoLength h
    refine ⟨us, rest, rfl, rfl, hplain us (hus t).closed, fun t' hkind htext more hmore => ?_⟩
    simp only [simpleLength, Token.isOpener, hmarks t' hkind htext] at hopen ⊢
    rw [if_neg hopen, if_neg hname, if_pos hcolon]
    exact (hus t').count more hmore
  · rename_i hcolon
    cases h
    refine ⟨[], ts, rfl, rfl, hplain [] rfl, fun t' hkind htext more _ => ?_⟩
    simp only [simpleLength, Token.isOpener, hmarks t' hkind htext] at hopen ⊢
    rw [if_neg hopen, if_neg hname, if_neg hcolon]
    rfl

/-! ### Selector lists -/

namespace Groups

/-- Tokens put in front of the first group. -/
def prepend (ts : List Token) (g : Groups) : Groups := ts.foldr cons g

theorem prepend_mk (ts first : List Token) (others : List (List Token)) (brace : Token)
    (rest : List Token) :
    prepend ts ⟨first :: others, brace, rest⟩ = ⟨(ts ++ first) :: others, brace, rest⟩ := by
  induction ts with
  | nil => rfl
  | cons t ts ih =>
    change cons t (prepend ts _) = _
    rw [ih]
    rfl

/-- Tokens that do not end a selector go into the group at hand. -/
theorem split_through {ending : Error} {depth d : Nat} {ts : List Token}
    (h : through depth ts = some d) (started : Bool) (more : List Token) :
    split ending depth started (ts ++ more) =
      prepend ts <$> split ending d (started || !ts.isEmpty) more := by
  induction ts generalizing depth started with
  | nil =>
    cases h
    rw [List.isEmpty_nil, Bool.not_true, Bool.or_false]
    exact (id_map' _).symm
  | cons t ts ih =>
    have hstep : ∀ {k}, through k ts = some d → cons t <$> split ending k true (ts ++ more) =
        prepend (t :: ts) <$> split ending d (started || !(t :: ts).isEmpty) more := by
      intro k hk
      rw [ih hk, ← comp_map]
      simp only [Bool.true_or, List.isEmpty_cons, Bool.not_false, Bool.or_true]
      rfl
    rw [List.cons_append, split]
    obtain ⟨hopen, hk⟩ | ⟨hopen, hclose, hdepth, hk⟩ | ⟨hopen, hclose, hend, hk⟩ :=
      Token.through_cons_eq_some h
    · rw [if_neg (by simp [Token.isMark_of_bracket (.inl hopen)]), if_pos hopen, hstep hk]
    · rw [if_neg (by simp [hdepth]), if_neg (by simp [hopen]), if_pos hclose, if_neg hdepth,
        hstep hk]
    · simp only [Token.endsSelector, Bool.or_eq_false_iff] at hend
      rw [if_neg (by simpa using fun hd => (hend hd).1.2), if_neg (by simp [hopen]),
        if_neg (by simp [hclose]), if_neg (by simpa using fun hd => (hend hd).1.1), hstep hk]

end Groups

end Selector

/-- Tokens that do not end a selector are passed over. -/
theorem Sheet.startsRule_through {ending : Ending} {depth d : Nat} {ts : List Token}
    (h : Token.through depth ts = some d) (more : List Token) :
    startsRule ending depth (ts ++ more) = startsRule ending d more := by
  induction ts generalizing depth with
  | nil =>
    cases h
    rfl
  | cons t ts ih =>
    rw [List.cons_append, startsRule]
    obtain ⟨hopen, hk⟩ | ⟨hopen, hclose, hdepth, hk⟩ | ⟨hopen, hclose, hend, hk⟩ :=
      Token.through_cons_eq_some h
    · rw [if_pos (by simp [hopen]), Declaration.depthAfter, if_pos hopen, ih hk]
    · rw [if_pos (by simp [hclose]), Declaration.depthAfter, if_neg (by simp [hopen]),
        if_pos hclose, ih hk]
    · simp only [Token.endsSelector, Bool.or_eq_false_iff] at hend
      rw [if_neg (by simp [hopen, hclose]), if_neg (by simpa using fun hd => (hend hd).1.2),
        if_neg (by simpa using fun hd => (hend hd).2), ih hk]

namespace Selector.Groups

open Token (through)

/-- The groups of a rule's selector list are stretches of it, and none of them ends it. -/
theorem through_of_split {e : Error} {ending : Sheet.Ending} {depth : Nat} {started : Bool}
    {ts : List Token} {g : Groups} (h : split e depth started ts = .ok g)
    (hrule : Sheet.startsRule ending depth ts = .ok true) :
    ∃ first others, g.groups = first :: others ∧ (first <+: ts ∧ through depth first = some 0) ∧
      ∀ group ∈ others, group <:+: ts ∧ through 0 group = some 0 := by
  induction ts generalizing depth started g with
  | nil => cases h
  | cons t ts ih =>
    rw [split] at h
    rw [Sheet.startsRule] at hrule
    split at h
    · rename_i hbrace
      cases h
      simp only [Bool.and_eq_true, decide_eq_true_eq] at hbrace
      exact ⟨[], [], rfl, ⟨List.nil_prefix, by rw [hbrace.1]; rfl⟩, List.forall_mem_nil _⟩
    rename_i hbrace
    have hlater : ∀ {others : List (List Token)},
        (∀ group ∈ others, group <:+: ts ∧ through 0 group = some 0) →
        ∀ group ∈ others, group <:+: t :: ts ∧ through 0 group = some 0 := fun hothers group hmem =>
      (hothers group hmem).imp_left (·.trans (List.suffix_cons t ts).isInfix)
    have hcons : ∀ {k b}, cons t <$> split e k b ts = .ok g →
        Sheet.startsRule ending k ts = .ok true →
        (∀ us, through depth (t :: us) = through k us) →
        ∃ first others, g.groups = first :: others ∧
          (first <+: t :: ts ∧ through depth first = some 0) ∧
          ∀ group ∈ others, group <:+: t :: ts ∧ through 0 group = some 0 := by
      intro k b hg hk hthrough
      obtain ⟨g', hsplit, rfl⟩ := map_eq_ok.1 hg
      obtain ⟨first, others, hgroups, ⟨hfront, hfirst⟩, hothers⟩ := ih hsplit hk
      refine ⟨t :: first, others, by rw [cons, hgroups], ⟨?_, ?_⟩, hlater hothers⟩
      · exact List.cons_prefix_cons.2 ⟨rfl, hfront⟩
      · rw [hthrough, hfirst]
    split at h
    · rename_i hopen
      rw [if_pos (by simp [hopen]), Declaration.depthAfter, if_pos hopen] at hrule
      exact hcons h hrule (Token.through_opener hopen)
    rename_i hopen
    split at h
    · rename_i hclose
      rw [if_pos (by simp [hclose]), Declaration.depthAfter, if_neg hopen, if_pos hclose] at hrule
      split at h
      · cases h
      · rename_i hdepth
        obtain ⟨depth, rfl⟩ := Nat.exists_eq_succ_of_ne_zero hdepth
        exact hcons h hrule (Token.through_closer hclose)
    rename_i hclose
    rw [if_neg (by simp [hopen, hclose]), if_neg hbrace] at hrule
    split at hrule
    · cases hrule
    rename_i hterminator
    split at h
    · rename_i hcomma
      split at h
      · obtain ⟨g', hsplit, rfl⟩ := map_eq_ok.1 h
        simp only [Bool.and_eq_true, decide_eq_true_eq] at hcomma
        rw [hcomma.1] at hrule
        obtain ⟨first, others, hgroups, ⟨hfront, hfirst⟩, hothers⟩ := ih hsplit hrule
        refine ⟨[], first :: others, by rw [hgroups], ⟨List.nil_prefix, by rw [hcomma.1]; rfl⟩, ?_⟩
        exact hlater (List.forall_mem_cons.2 ⟨⟨hfront.isInfix, hfirst⟩, hothers⟩)
      · cases h
    · rename_i hcomma
      refine hcons h hrule (Token.through_plain (by simpa using hopen) (by simpa using hclose) ?_)
      rintro rfl
      simp only [decide_true, Bool.true_and, Bool.not_eq_true] at hcomma hbrace hterminator
      rw [Token.endsSelector, hcomma, hbrace, hterminator]
      rfl

end Selector.Groups

end ScopedCss
