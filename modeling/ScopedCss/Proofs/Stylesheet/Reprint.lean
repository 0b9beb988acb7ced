/-
Printed style sheets are read back. The lines of a legible style sheet are read as items that flatten
to these lines again (`Stylesheet.readsBack_lines`): declarations by `Text.IsDeclaration`, heads by
`Text.exists_opens_rule` and `Text.IsPrelude.exists_opens`.

`Stylesheet.exists_sheet`: what is printed is read without a fault, as a sheet in which nothing
dangles and which prints the same.
-/
import ScopedCss.Proofs.Sheet.Rereading
import ScopedCss.Proofs.Stylesheet.Restoring

namespace ScopedCss

open Lexeme (isSpace)
open Token (led groupTokens)
open Sheet (Reads Opens inCondition)
open Declaration (depthAfter)

/-! ### Marks and lines -/

/-- The token of a mark. -/
def Token.ofMark (place : Location) (c : Char) (spaced : Bool) : Token :=
  ⟨.punct, [c], [c], place, spaced⟩

@[simp] theorem Token.isMark_ofMark (place : Location) (c : Char) (spaced : Bool) :
    (ofMark place c spaced).isMark c = true := by
  simp [ofMark, isMark]

namespace Text

/-- A mark behind white space is one token. -/
theorem Yields.mark (place : Location) {c : Char} (hc : Lexeme.isPunct c = true)
    (hspace : isSpace c = false) {w : Text} (hw : ∀ d ∈ w, isSpace d = true) (z : Text) :
    Yields place (w ++ c :: z) [Token.ofMark place c (!w.isEmpty)] z :=
  Yields.lexeme (x := [c]) (Lexeme.read_punct hc z) (by simpa using hspace) hw .nil

/-- Lines, each behind a line break. -/
def onLines (ls : List Text) : Text := ls.flatMap ('\n' :: ·)

@[simp] theorem onLines_nil : onLines [] = [] := rfl

@[simp] theorem onLines_cons (l : Text) (ls : List Text) :
    onLines (l :: ls) = '\n' :: (l ++ onLines ls) := rfl

@[simp] theorem onLines_append (ls ls' : List Text) :
    onLines (ls ++ ls') = onLines ls ++ onLines ls' := List.flatMap_append

theorem join_cons_cons (sep x y : Text) (xs : List Text) :
    join sep (x :: y :: xs) = x ++ (sep ++ join sep (y :: xs)) := by
  simp [join, List.intercalate]

theorem newline_join {ls : List Text} (h : ls ≠ []) : '\n' :: join ['\n'] ls = onLines ls := by
  obtain ⟨l, ls, rfl⟩ := List.exists_cons_of_ne_nil h
  induction ls generalizing l with
  | nil => simp [join, List.intercalate]
  | cons l' ls ih =>
    rw [join_cons_cons, List.singleton_append, ih l' (List.cons_ne_nil _ _)]
    rfl

theorem isSpace_indentation {indent : Text} (h : ∀ c ∈ indent, isSpace c = true) (depth : Nat) :
    ∀ c ∈ indentation indent depth, isSpace c = true :=
  fun c hc => h c (mem_of_mem_indentation hc)

theorem isSpace_blank : ∀ c ∈ [' '], isSpace c = true := List.forall_mem_singleton.2 rfl

theorem isSpace_newline {pad : Text} (h : ∀ c ∈ pad, isSpace c = true) :
    ∀ c ∈ '\n' :: pad, isSpace c = true :=
  List.forall_mem_cons.2 ⟨rfl, h⟩

/-- In a state of any kind, `x` is read as items that flatten to the lines of `s`. -/
def ReadsBack (place : Location) (inScope : Bool) (x : Text) (s : Stylesheet) : Prop :=
  ∀ z, ∃ ts items s', Yields place (x ++ z) ts z ∧ Reads ts items ∧
    Sheet.Restores inScope s' items ∧ Stylesheet.SameText s' s

namespace ReadsBack

variable {place : Location} {inScope : Bool} {x y : Text} {s t : Stylesheet}

theorem nil (place : Location) (inScope : Bool) : ReadsBack place inScope [] [] :=
  fun _ => ⟨[], [], [], .nil, .nil, .nil, fun _ _ => rfl⟩

theorem append (h : ReadsBack place inScope x s) (h' : ReadsBack place inScope y t) :
    ReadsBack place inScope (x ++ y) (s ++ t) := by
  intro z
  obtain ⟨ts, items, s', hts, hitems, hs, hsame⟩ := h (y ++ z)
  obtain ⟨us, items', t', hus, hitems', ht, hsame'⟩ := h' z
  refine ⟨ts ++ us, items ++ items', s' ++ t', ?_, hitems.append hitems', hs.append ht,
    hsame.append hsame'⟩
  rw [List.append_assoc]
  exact hts.append hus

end ReadsBack

end Text

/-! ### Declarations -/

/-- What does not look at white space holds of tokens whatever stands in front of them. -/
theorem Token.forall_mem_led {P : Token → Prop} {b : Bool} {ts : List Token}
    (hP : ∀ t, P t → P { t with spaced := b }) (h : ∀ t ∈ ts, P t) : ∀ t ∈ led b ts, P t := by
  cases ts with
  | nil => exact h
  | cons t ts =>
    obtain ⟨ht, hts⟩ := List.forall_mem_cons.1 h
    exact List.forall_mem_cons.2 ⟨hP t ht, hts⟩

theorem Token.ofTokens_led {ts : List Token} (h : Plain ts) (b : Bool) :
    Fragment.ofTokens (led b ts) = Fragment.ofText (join ts) := by
  have hjoin : join (led b ts) = join ts := by cases ts <;> rfl
  have hplain : Plain (led b ts) := forall_mem_led (fun _ ht => ht) h
  rw [Fragment.ofTokens_of_plain hplain, hjoin]

/-- White space in front of a value does not change how it is read. -/
theorem Token.IsValue.led {place : Location} {vs : List Token} (h : IsValue place vs) (b : Bool) :
    led b vs ≠ [] ∧ (∀ t ∈ led b vs, inCondition t = true) ∧ (led b vs).foldl depthAfter 0 = 0 ∧
      Declaration.nextProperty (led b vs) = none ∧
      Fragment.ofTokens (led b vs) = Fragment.ofText (Token.join vs) := by
  refine ⟨?_, forall_mem_led (fun _ ht => ht) h.inside, ?_, ?_, ofTokens_led h.plain b⟩
  all_goals obtain ⟨v, vs, rfl⟩ := List.exists_cons_of_ne_nil h.ne_nil
  · exact List.cons_ne_nil _ _
  · exact h.closed
  · exact h.alone

theorem Fragment.isPlain_ofText (x : Text) : ∀ f ∈ ofText x, f.IsPlain := by
  intro f hf
  rw [ofText] at hf
  split at hf
  · cases hf
  · rw [List.mem_singleton.1 hf]
    exact isPlain_literal x

/-- The line of a declaration is read as that declaration. -/
theorem Text.IsDeclaration.exists_reading {place : Location} {d : Text × Text}
    (h : IsDeclaration place d) {pad : Text} (hpad : ∀ c ∈ pad, isSpace c = true) (z : Text) :
    ∃ ts e, Yields place ('\n' :: (FlatItem.declarationLine pad d ++ z)) ts z ∧
      Reads ts [.declaration e] ∧ e.Settled ∧ e.resolve = .ok d := by
  obtain ⟨key, vs, hkey, hvs, rfl⟩ := h
  have hline : '\n' :: (FlatItem.declarationLine pad (key.text, Token.join vs) ++ z) =
      '\n' :: pad ++ (Token.join [key] ++ ':' :: ([' '] ++ (Token.join vs ++ ';' :: z))) := by
    simp [FlatItem.declarationLine, Token.join]
  have hword := hkey.stand ('\n' :: pad) (':' :: ([' '] ++ (Token.join vs ++ ';' :: z)))
    (isSpace_newline hpad) ⟨rfl, rfl⟩
  have hcolon := Yields.mark place (c := ':') (by decide) (by decide)
    (List.forall_mem_nil _) ([' '] ++ (Token.join vs ++ ';' :: z))
  have hvalue := hvs.stand [' '] (';' :: z) isSpace_blank ⟨rfl, rfl⟩
  have hend := Yields.mark place (c := ';') (by decide) (by decide)
    (List.forall_mem_nil _) z
  obtain ⟨hne, hinside, hclosed, halone, hfragments⟩ := hvs.led true
  have hkind : Token.kind { key with spaced := true } = .ident := hkey.kind
  refine ⟨_, _, ?_, Sheet.reads_declaration hkind (Token.isMark_ofMark place ':' false) hne hinside
    hclosed halone (Token.isMark_ofMark place ';' false), ?_, ?_⟩
  · rw [hline]
    exact hword.append (hcolon.append (hvalue.append hend))
  · refine ⟨rfl, Fragment.isPlain_literal _, ?_⟩
    rw [hfragments]
    exact Fragment.isPlain_ofText _
  · rw [Declaration.resolve, hfragments, Fragment.resolveAll_ofText]
    rfl

theorem Text.exists_declarations {place : Location} {ds : List (Text × Text)}
    (h : ∀ d ∈ ds, IsDeclaration place d) {pad : Text} (hpad : ∀ c ∈ pad, isSpace c = true)
    (z : Text) :
    ∃ ts, ∃ es : List Declaration,
      Yields place (onLines (ds.map (FlatItem.declarationLine pad)) ++ z) ts z ∧
      Reads ts (es.map .declaration) ∧ (∀ e ∈ es, e.Settled) ∧
      es.mapM Declaration.resolve = .ok ds := by
  induction ds with
  | nil => exact ⟨[], [], .nil, .nil, List.forall_mem_nil _, rfl⟩
  | cons d ds ih =>
    obtain ⟨hd, hds⟩ := List.forall_mem_cons.1 h
    obtain ⟨us, es, hus, hreads, hsettled, hresolve⟩ := ih hds
    obtain ⟨ts, e, hts, hread, hone, hfirst⟩ :=
      hd.exists_reading hpad (onLines (ds.map (FlatItem.declarationLine pad)) ++ z)
    refine ⟨ts ++ us, e :: es, ?_, hread.append hreads, List.forall_mem_cons.2 ⟨hone, hsettled⟩, ?_⟩
    · rw [List.map_cons, onLines_cons, List.cons_append, List.append_assoc]
      exact hts.append hus
    · exact mapM_eq_ok.2 (.cons hfirst (mapM_eq_ok.1 hresolve))

theorem Sheet.restores_declarations {ds : List (Text × Text)} {es : List Declaration}
    (hsettled : ∀ e ∈ es, e.Settled) (h : es.mapM Declaration.resolve = .ok ds) :
    Restores false (ds.map fun d => .rule [] [d]) (es.map .declaration) := by
  rw [mapM_eq_ok] at h
  induction h with
  | nil => exact .nil
  | cons hd _ ih =>
    obtain ⟨hone, hothers⟩ := List.forall_mem_cons.1 hsettled
    exact .declaration rfl hone hd (ih hothers)

/-! ### Heads -/

theorem Token.Selects.isGroup {nesting : Bool} {x : Text} {ts : List Token}
    (h : Selects nesting x ts) : IsGroup ts := by
  obtain ⟨t, ht, -⟩ := h.begins
  exact ⟨fun hnil => by simp [hnil] at ht, h.closed⟩

theorem Text.exists_groups {place : Location} {nesting : Bool} {x : Text} {xs : List Text}
    (h : ∀ y ∈ x :: xs, y.IsSelector place nesting) {w : Text} (hw : ∀ c ∈ w, isSpace c = true)
    (z : Text) :
    ∃ first others brace,
      Yields place (w ++ (Text.join ", ".toList (x :: xs) ++ ' ' :: '\x7b' :: z))
        (groupTokens first others ++ [brace]) z ∧
      brace.isMark '\x7b' = true ∧ (∀ p ∈ others, p.1.isMark ',' = true ∧ Token.IsGroup p.2) ∧
      List.Forall₂ (Token.Selects nesting) (x :: xs) (first :: others.map (·.2)) := by
  induction xs generalizing x w with
  | nil =>
    obtain ⟨ts, w', hw', hts, hselects⟩ := h x List.mem_cons_self w (' ' :: '\x7b' :: z) hw
      (apart_space _)
    have hspaces : ∀ c ∈ w' ++ [' '], isSpace c = true :=
      List.forall_mem_append.2 ⟨hw', isSpace_blank⟩
    have hbrace := Yields.mark place (c := '\x7b') (by decide) (by decide) hspaces z
    rw [List.append_assoc, List.singleton_append] at hbrace
    refine ⟨ts, [], Token.ofMark place '\x7b' (!(w' ++ [' ']).isEmpty), ?_, Token.isMark_ofMark ..,
      List.forall_mem_nil _, .cons hselects .nil⟩
    have hjoin : Text.join ", ".toList [x] = x := by simp [Text.join, List.intercalate]
    rw [hjoin, groupTokens, List.flatMap_nil, List.append_nil]
    exact hts.append hbrace
  | cons y xs ih =>
    obtain ⟨hx, hxs⟩ := List.forall_mem_cons.1 h
    obtain ⟨first, others, brace, hyields, hbrace, hgroups, hselects⟩ := ih hxs isSpace_blank
    obtain ⟨ts, w', hw', hts, hfirst⟩ := hx w
      (',' :: ([' '] ++ (Text.join ", ".toList (y :: xs) ++ ' ' :: '\x7b' :: z))) hw ⟨rfl, rfl⟩
    have hcomma := Yields.mark place (c := ',') (by decide) (by decide) hw'
      ([' '] ++ (Text.join ", ".toList (y :: xs) ++ ' ' :: '\x7b' :: z))
    have hgroup := (List.forall₂_cons.1 hselects).1.isGroup
    refine ⟨ts, (Token.ofMark place ',' (!w'.isEmpty), first) :: others, brace, ?_, hbrace,
      List.forall_mem_cons.2 ⟨⟨Token.isMark_ofMark .., hgroup⟩, hgroups⟩, .cons hfirst hselects⟩
    rw [join_cons_cons, Token.groupTokens_cons, List.append_assoc]
    have hall := hts.append (hcomma.append hyields)
    simpa using hall

theorem Selector.exists_ofTokens {nesting : Bool} {xs : List Text} {groups : List (List Token)}
    (h : List.Forall₂ (Token.Selects nesting) xs groups) :
    ∃ selectors, groups.mapM Selector.ofTokens = .ok selectors ∧
      List.Forall₂ (fun s x => Fragment.Write nesting x s.fragments) selectors xs := by
  induction h with
  | nil => exact ⟨[], rfl, .nil⟩
  | cons hx _ ih =>
    obtain ⟨fs, hfs, hwrite⟩ := hx.reads
    obtain ⟨selectors, hselectors, hwrites⟩ := ih
    refine ⟨⟨fs⟩ :: selectors, mapM_eq_ok.2 (.cons ?_ (mapM_eq_ok.1 hselectors)),
      .cons hwrite hwrites⟩
    rw [Selector.ofTokens, hfs]
    rfl

/-- A selector list and a brace open a rule of selectors with the same texts. -/
theorem Text.exists_opens_rule {place : Location} {nesting : Bool} {x : Text} {xs : List Text}
    (h : ∀ y ∈ x :: xs, y.IsSelector place nesting) (hsign : x.head? ≠ some '@') {w : Text}
    (hw : ∀ c ∈ w, isSpace c = true) (z : Text) :
    ∃ ts selectors location,
      Yields place (w ++ (Text.join ", ".toList (x :: xs) ++ ' ' :: '\x7b' :: z)) ts z ∧
      Opens ts (.rule selectors location) ∧
      List.Forall₂ (fun s x => Fragment.Write nesting x s.fragments) selectors (x :: xs) := by
  obtain ⟨first, others, brace, hyields, hbrace, hgroups, hselects⟩ := exists_groups h hw z
  obtain ⟨selectors, hread, hwrites⟩ := Selector.exists_ofTokens hselects
  obtain ⟨hfirst, -⟩ := List.forall₂_cons.1 hselects
  obtain ⟨t, ht, hat⟩ := hfirst.begins
  have hnot : t.isMark '@' = false := Bool.eq_false_iff.2 fun hmark => hsign (hat hmark)
  exact ⟨_, selectors, t.location, hyields,
    Sheet.opens_rule hfirst.isGroup hgroups hbrace ht hnot hread, hwrites⟩

theorem Token.Stand.join_ne_nil {place : Location} {ts : List Token} (h : Stand place ts)
    (hne : ts ≠ []) : Token.join ts ≠ [] := by
  obtain ⟨t, ts, rfl⟩ := List.exists_cons_of_ne_nil hne
  obtain ⟨rest, hread⟩ := h.exists_read
  have htext : t.text ≠ [] := Lexeme.text_ne_nil_of_read hread
  simp [join, htext]

/-- The head of an at-rule and a brace open an at-rule with the same head. -/
theorem Text.IsPrelude.exists_opens {place : Location} {kind : AtRuleKind} {x : Text}
    (h : x.IsPrelude place kind) {w : Text} (hw : ∀ c ∈ w, isSpace c = true) (z : Text) :
    ∃ ts head y, Yields place (w ++ (x ++ ' ' :: '\x7b' :: z)) ts z ∧ Opens ts (.atRule head) ∧
      head.kind = kind ∧ (∀ f ∈ head.condition, f.IsPlain) ∧
      Fragment.resolveAll head.condition = .ok y ∧ AtRule.preludeOf head.name y = x := by
  obtain ⟨name, cs, hname, hcs, rfl, rfl⟩ := h
  have hbrace := Yields.mark place (c := '\x7b') (by decide) (by decide) isSpace_blank z
  have hword : ∀ y : Text, Yields place (name.text ++ ' ' :: y) [{ name with spaced := false }]
      (' ' :: y) := by
    intro y
    have hstand := hname.stand [] (' ' :: y) (List.forall_mem_nil _) (apart_space y)
    simpa [Token.join, led] using hstand
  have hinside : ∀ c ∈ led true cs, inCondition c = true :=
    Token.forall_mem_led (fun _ hc => hc) hcs.inside
  have hcondition := Token.ofTokens_led hcs.plain true
  have hkind : Token.kind { name with spaced := false } = .ident := hname.kind
  refine ⟨_, _, Token.join cs, ?_,
    Sheet.opens_atRule (Token.isMark_ofMark place '@' (!w.isEmpty)) hkind rfl hinside
      (Token.isMark_ofMark place '\x7b' true), rfl, ?_, ?_, rfl⟩
  · by_cases hempty : cs = []
    · have hsign := Yields.mark place (c := '@') (by decide) (by decide) hw
        (name.text ++ ' ' :: '\x7b' :: z)
      have hall := hsign.append ((hword ('\x7b' :: z)).append hbrace)
      simpa [hempty, AtRule.preludeOf, Token.join, Token.led] using hall
    · have hstand := hcs.stand hempty
      have hne : (Token.join cs).isEmpty = false := by simpa using hstand.join_ne_nil hempty
      have hsign := Yields.mark place (c := '@') (by decide) (by decide) hw
        (name.text ++ ' ' :: (Token.join cs ++ ' ' :: '\x7b' :: z))
      have hall := hsign.append ((hword (Token.join cs ++ ' ' :: '\x7b' :: z)).append
        ((hstand [' '] (' ' :: '\x7b' :: z) isSpace_blank (apart_space _)).append hbrace))
      rw [AtRule.preludeOf, hne]
      simpa using hall
  · rw [hcondition]
    exact Fragment.isPlain_ofText _
  · rw [hcondition, Fragment.resolveAll_ofText]

/-! ### Style sheets -/

theorem Selector.isPlain_of_write {nesting : Bool} {selectors : List Selector} {xs : List Text}
    (h : List.Forall₂ (fun s x => Fragment.Write nesting x s.fragments) selectors xs) :
    ∀ s ∈ selectors, s.IsPlain := by
  induction h with
  | nil => exact List.forall_mem_nil _
  | cons hs _ ih => exact List.forall_mem_cons.2 ⟨hs.plain, ih⟩

namespace FlatItem

open Text (ReadsBack onLines Yields)

variable {place : Location} {inScope : Bool} {pad : Text}

theorem lines_ne_nil {i : FlatItem} (h : i.Legible place inScope) (indent : Text) (depth : Nat) :
    i.lines indent depth ≠ [] := by
  match i, h with
  | .rule [] declarations, ⟨_, _, _, hne, _⟩ => simpa [FlatItem.lines] using hne
  | .rule (s :: ss) declarations, _ => simp [FlatItem.lines]
  | .atRule prelude items, _ => simp [FlatItem.lines]

theorem readsBack_bare (hpad : ∀ c ∈ pad, isSpace c = true) {ds : List (Text × Text)}
    (hne : ds ≠ []) (hds : ∀ d ∈ ds, Text.IsDeclaration place d) :
    ReadsBack place false (onLines (ds.map (declarationLine pad))) [.rule [] ds] := by
  intro z
  obtain ⟨ts, es, hts, hreads, hsettled, hresolve⟩ := Text.exists_declarations hds hpad z
  refine ⟨ts, es.map .declaration, ds.map fun d => .rule [] [d], hts, hreads,
    Sheet.restores_declarations hsettled hresolve, fun indent depth => ?_⟩
  obtain ⟨d, ds, rfl⟩ := List.exists_cons_of_ne_nil hne
  exact (sameText_bare (d :: ds) indent depth).symm

theorem yields_closeLine (place : Location) (hpad : ∀ c ∈ pad, isSpace c = true) (z : Text) :
    Yields place (onLines [closeLine pad] ++ z) [Token.ofMark place '\x7d' true] z := by
  have hclose := Yields.mark place (c := '\x7d') (by decide) (by decide)
    (Text.isSpace_newline hpad) z
  simpa [closeLine] using hclose

theorem onLines_headLine (pad x : Text) (ls : List Text) (z : Text) :
    onLines (headLine pad x :: ls ++ [closeLine pad]) ++ z =
      '\n' :: pad ++ (x ++ ' ' :: '\x7b' :: (onLines ls ++ (onLines [closeLine pad] ++ z))) := by
  simp [headLine]

theorem readsBack_rule {pad' : Text} (hpad : ∀ c ∈ pad, isSpace c = true)
    (hpad' : ∀ c ∈ pad', isSpace c = true) {x : Text} {xs : List Text}
    (hselectors : ∀ y ∈ x :: xs, y.IsSelector place (!inScope)) (hsign : x.head? ≠ some '@')
    {ds : List (Text × Text)} (hne : ds ≠ []) (hds : ∀ d ∈ ds, Text.IsDeclaration place d) :
    ReadsBack place inScope
      (onLines (headLine pad (Text.join ", ".toList (x :: xs)) :: ds.map (declarationLine pad') ++
        [closeLine pad]))
      [.rule (x :: xs) ds] := by
  intro z
  have hclose := yields_closeLine place hpad z
  obtain ⟨us, es, hus, hreads, hsettled, hresolve⟩ :=
    Text.exists_declarations hds hpad' (onLines [closeLine pad] ++ z)
  obtain ⟨ts, selectors, location, hts, hopens, hwrites⟩ :=
    Text.exists_opens_rule hselectors hsign (Text.isSpace_newline hpad)
      (onLines (ds.map (declarationLine pad')) ++ (onLines [closeLine pad] ++ z))
  have hblock := hopens.block hreads (Token.isMark_ofMark place '\x7d' true)
  rw [Sheet.Head.close_declarations] at hblock
  have hflatten := Content.flatten_written hwrites (List.cons_ne_nil _ _) hsettled hresolve hne
    (some location)
  refine ⟨_, _, _, ?_, hblock, .content ?_ hflatten .nil, fun _ _ => rfl⟩
  · rw [onLines_headLine, List.append_assoc ts]
    exact hts.append (hus.append hclose)
  · exact ⟨Selector.isPlain_of_write hwrites, hsettled, trivial⟩

theorem readsBack_atRule (hpad : ∀ c ∈ pad, isSpace c = true) {kind : AtRuleKind} {x : Text}
    (hx : x.IsPrelude place kind) {ls : List Text} {s : Stylesheet}
    (hbody : ReadsBack place (inScope && kind.isScoped) (onLines ls) s)
    (hkept : kind.isScoped = true → ∃ indent, Stylesheet.lines indent 0 s ≠ []) :
    ReadsBack place inScope (onLines (headLine pad x :: ls ++ [closeLine pad])) [.atRule x s] := by
  intro z
  have hclose := yields_closeLine place hpad z
  obtain ⟨us, items, s', hus, hreads, hrestores, hsame⟩ := hbody (onLines [closeLine pad] ++ z)
  obtain ⟨ts, head, y, hts, hopens, rfl, hplain, hcondition, hprelude⟩ :=
    hx.exists_opens (Text.isSpace_newline hpad)
      (onLines ls ++ (onLines [closeLine pad] ++ z))
  have hblock := hopens.block hreads (Token.isMark_ofMark place '\x7d' true)
  obtain ⟨out, hflatten, hlines⟩ := Content.flatten_restored hrestores hcondition fun hscoped => by
    obtain ⟨indent, hne⟩ := hkept hscoped
    exact ⟨indent, by rwa [hsame]⟩
  refine ⟨_, _, _, ?_, hblock, .content ?_ hflatten .nil, fun indent depth => ?_⟩
  · rw [onLines_headLine, List.append_assoc ts]
    exact hts.append (hus.append hclose)
  · exact ⟨hplain, hrestores.settled⟩
  · simp [Stylesheet.lines, FlatItem.lines, hprelude, hlines indent (depth + 1),
      hsame indent (depth + 1)]

end FlatItem

section ReadsBack

variable {place : Location} {indent : Text}

open Text (ReadsBack onLines)

mutual

theorem FlatItem.readsBack_lines (hindent : ∀ c ∈ indent, isSpace c = true) :
    ∀ {inScope : Bool} {depth : Nat} {i : FlatItem}, i.Legible place inScope →
      ReadsBack place inScope (onLines (i.lines indent depth)) [i]
  | inScope, depth, .rule [] declarations, ⟨hin, _, _, hne, hds⟩ => by
    obtain rfl : inScope = false := Bool.eq_false_iff.2 fun hscope => hin hscope rfl
    exact FlatItem.readsBack_bare (Text.isSpace_indentation hindent depth) hne hds
  | inScope, depth, .rule (x :: xs) declarations, ⟨_, hselectors, hsign, hne, hds⟩ => by
    have hpad := Text.isSpace_indentation hindent depth
    exact FlatItem.readsBack_rule hpad (List.forall_mem_append.2 ⟨hpad, hindent⟩) hselectors
      (hsign x rfl) hne hds
  | inScope, depth, .atRule prelude items, ⟨kind, hprelude, hkept, hitems⟩ => by
    refine FlatItem.readsBack_atRule (Text.isSpace_indentation hindent depth) hprelude
      (Stylesheet.readsBack_lines hindent hitems) fun hscoped => ?_
    obtain ⟨i, is, rfl⟩ := List.exists_cons_of_ne_nil (hkept hscoped)
    refine ⟨indent, fun hnil => ?_⟩
    exact FlatItem.lines_ne_nil hitems.1 indent 0 (List.append_eq_nil_iff.1 hnil).1

/-- The lines of a legible style sheet are read back. -/
theorem Stylesheet.readsBack_lines (hindent : ∀ c ∈ indent, isSpace c = true) :
    ∀ {inScope : Bool} {depth : Nat} {s : Stylesheet}, Stylesheet.Legible place inScope s →
      ReadsBack place inScope (onLines (Stylesheet.lines indent depth s)) s
  | _, _, [], _ => .nil place _
  | inScope, depth, i :: is, ⟨hi, his⟩ => by
    rw [Stylesheet.lines, Text.onLines_append]
    exact (FlatItem.readsBack_lines hindent hi).append (Stylesheet.readsBack_lines hindent his)

end

end ReadsBack

/-- A line break in front of a text shows only in its first token. -/
theorem Text.Yields.flush {place : Location} {x : Text} {ts : List Token}
    (h : Yields place ('\n' :: x) ts []) :
    ∃ us, Yields place x us [] ∧ Token.flushLeft us = Token.flushLeft ts := by
  cases h with
  | token gap read more =>
    rw [Lexeme.dropGap_space (by decide)] at gap
    exact ⟨_, .token gap read more, rfl⟩

/-- What is printed of a legible style sheet yields tokens that are read as items of it. -/
theorem Stylesheet.exists_reading {place : Location} {indent : Text}
    (hindent : ∀ c ∈ indent, isSpace c = true) {s : Stylesheet}
    (h : Stylesheet.Legible place true s) :
    ∃ us ts items s', Text.Yields place (Stylesheet.print indent s) us [] ∧
      Token.flushLeft us = Token.flushLeft ts ∧ Reads ts items ∧ Sheet.Restores true s' items ∧
      SameText s' s := by
  cases s with
  | nil => exact ⟨[], [], [], [], .nil, rfl, .nil, .nil, fun _ _ => rfl⟩
  | cons i is =>
    have hlines : Stylesheet.lines indent 0 (i :: is) ≠ [] := fun hnil =>
      FlatItem.lines_ne_nil h.1 indent 0 (List.append_eq_nil_iff.1 hnil).1
    obtain ⟨ts, items, s', hts, hreads, hrestores, hsame⟩ := Stylesheet.readsBack_lines hindent h []
    rw [List.append_nil, ← Text.newline_join hlines] at hts
    obtain ⟨us, hus, hflush⟩ := hts.flush
    rw [Stylesheet.print, Stylesheet.stripRight_lines]
    exact ⟨us, ts, items, s', hus, hflush, hreads, hrestores, hsame⟩

/-- A text is read as what its tokens are, up to places. -/
theorem Sheet.moved_parse_of_yields {place : Location} {x : Text} {us ts : List Token}
    {items : List Item} (h : Text.Yields place x us [])
    (hflush : Token.flushLeft us = Token.flushLeft ts) (hreads : Reads ts items) :
    moved place (Sheet.movedTo place) (Sheet.parse x) = .ok (Item.contents [] items) := by
  have hdone : step ⟨none, place⟩ { tokens := [], items := items.reverse ++ [] } =
      .done (Item.contents [] items) := by simp [step]
  have hrun := hreads ⟨none, place⟩ { tokens := ts } [] rfl (List.append_nil ts).symm
  obtain ⟨hfailure, htokens⟩ : (Text.tokenize x).failure = none ∧
      (Text.tokenize x).tokens.map (·.movedTo place) = us :=
    Lexer.tokens_of_yields place rfl h Lexeme.dropGap_nil
  rw [moved_parse place hfailure, htokens, hflush, run_flushLeft ⟨none, place⟩ { tokens := ts },
    hrun, run_of_done hdone]

/-- What is printed of a legible style sheet is read as a sheet that is flattened to the same lines,
and in which nothing dangles. -/
theorem Stylesheet.exists_sheet {place : Location} {indent : Text}
    (hindent : ∀ c ∈ indent, isSpace c = true) {s : Stylesheet}
    (h : Stylesheet.Legible place true s) :
    ∃ sheet out, Sheet.parse (Stylesheet.print indent s) = .ok sheet ∧ Sheet.Settled sheet ∧
      sheet.flatten ⟨none⟩ = .ok out ∧ SameText out s := by
  obtain ⟨us, ts, items, s', hus, hflush, hreads, hrestores, hsame⟩ :=
    Stylesheet.exists_reading hindent h
  obtain ⟨out, hout, hsame'⟩ := hrestores.exists_flatten (List.forall_mem_nil _) rfl (absurd rfl)
  have hmoved := Sheet.moved_parse_of_yields hus hflush hreads
  cases hparse : Sheet.parse (Stylesheet.print indent s) with
  | error e =>
    rw [hparse] at hmoved
    cases hmoved
  | ok sheet =>
    rw [hparse, moved_ok, Except.ok.injEq] at hmoved
    have hsettled : Sheet.Settled sheet := Sheet.settled_of_movedTo (hmoved ▸ hrestores.settled)
    rw [← hmoved, Sheet.flattenIn_movedTo (Sheet.filled_of_settled hsettled).1] at hout
    exact ⟨sheet, out, rfl, hsettled, hout,
      fun indent depth => (hsame' indent depth).trans (hsame indent depth)⟩

end ScopedCss
