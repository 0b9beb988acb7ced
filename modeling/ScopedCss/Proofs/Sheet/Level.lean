/-
Sources whose brackets are closed at every `;` and brace (`Token.level`). A declaration goes up to the
next `;` whatever is open, so only there is no bracket left open in what is written out. A comment
beside a `;` or a brace does no harm (`Token.TightParts`): these are not written from the tokens.

`Sheet.legible_of_run`: the declarations and the heads of at-rules of such a source can be written down
again, and so can its selectors.
-/
import ScopedCss.Proofs.Sheet.Relocation
import ScopedCss.Proofs.Sheet.Standing

namespace ScopedCss

open Token (join Stand Writable)
open Sheet (inCondition)
open Declaration (depthAfter)

/-! ### Fragments of plain tokens -/

namespace Fragment

/-- The fragments of a text: one literal or none. -/
def ofText (x : Text) : List Fragment := if x = [] then [] else [literal x]

theorem merge_literals {xs : List Text} (h : ∀ x ∈ xs, x ≠ []) :
    merge (xs.map literal) = ofText xs.flatten := by
  induction xs with
  | nil => rfl
  | cons x xs ih =>
    obtain ⟨hx, hxs⟩ := List.forall_mem_cons.1 h
    rw [List.map_cons, merge, ih hxs, List.flatten_cons]
    by_cases hrest : xs.flatten = []
    · simp [ofText, hrest, hx]
    · simp [ofText, hrest]

theorem ofTokens_of_plain {ts : List Token} (h : Token.Plain ts) : ofTokens ts = ofText (join ts) := by
  have hone : ∀ {t : Token}, t.kind ≠ .placeholder → ofToken t = literal t.text :=
    fun ht => if_neg ht
  cases ts with
  | nil => rfl
  | cons t ts =>
    obtain ⟨ht, hts⟩ := List.forall_mem_cons.1 h
    have htrailing : ∀ u ∈ ts, trailing u =
        (if u.spaced then [[' '], u.text] else [u.text]).map literal := by
      intro u hu
      rw [trailing, hone (hts u hu)]
      split <;> rfl
    have htexts : ofToken t :: ts.flatMap trailing =
        (t.text :: ts.flatMap fun u => if u.spaced then [[' '], u.text] else [u.text]).map literal := by
      rw [hone ht, List.map_cons, List.map_flatMap, List.flatMap_congr htrailing]
    have hfilter : ∀ xs : List Text, (xs.map literal).filter (· ≠ literal []) =
        (xs.filter (· ≠ [])).map literal := by
      intro xs
      rw [List.filter_map]
      simp [Function.comp_def]
    have hjoin : (t.text :: ts.flatMap fun u =>
        if u.spaced then [[' '], u.text] else [u.text]).flatten = join (t :: ts) := by
      rw [List.flatten_cons, join, List.flatten_eq_flatMap, List.flatMap_assoc]
      congr 1
      refine List.flatMap_congr fun u _ => ?_
      rw [Token.trailing]
      split <;> simp
    rw [ofTokens, htexts, hfilter, merge_literals (by simp), List.flatten_filter_ne_nil, hjoin]

@[simp] theorem resolveAll_ofText (x : Text) : resolveAll (ofText x) = .ok x := by
  rw [ofText]
  split
  · rename_i hx
    rw [hx]
    rfl
  · exact congrArg Except.ok (List.append_nil x)

end Fragment

/-! ### Closed brackets -/

namespace Token

/-- Whether the brackets are closed at every `;` and brace and at the end; `depth` of them are open in
front. -/
def level (depth : Nat) : List Token → Bool
  | [] => depth = 0
  | t :: ts => (inCondition t || depth = 0) && level (depthAfter depth t) ts

theorem depthAfter_mono {d d' : Nat} (h : d ≤ d') (t : Token) : depthAfter d t ≤ depthAfter d' t := by
  unfold depthAfter
  split
  · omega
  split
  · omega
  · exact h

theorem level_mono {d d' : Nat} {ts : List Token} (hd : d ≤ d') (h : level d' ts = true) :
    level d ts = true := by
  induction ts generalizing d d' with
  | nil =>
    simp only [level, decide_eq_true_eq] at h ⊢
    omega
  | cons t ts ih =>
    simp only [level, Bool.and_eq_true, Bool.or_eq_true, decide_eq_true_eq] at h ⊢
    exact ⟨h.1.imp_right fun hzero => by omega, ih (depthAfter_mono hd t) h.2⟩

theorem level_suffix {us ts : List Token} (hus : us <:+ ts) (h : level 0 ts = true) :
    level 0 us = true := by
  induction ts with
  | nil => rwa [List.suffix_nil.1 hus]
  | cons t ts ih =>
    rcases List.suffix_cons_iff.1 hus with rfl | hus
    · exact h
    · exact ih hus (level_mono (Nat.zero_le _) (Bool.and_eq_true_iff.1 h).2)

theorem level_append {d : Nat} {us ts : List Token} (h : level d (us ++ ts) = true) :
    level (us.foldl depthAfter d) ts = true := by
  induction us generalizing d with
  | nil => exact h
  | cons u us ih => exact ih (Bool.and_eq_true_iff.1 h).2

/-- What comes to depth zero does not end with a bracket that opens. -/
theorem closed_of_foldl {ts : List Token} (h : ts.foldl depthAfter 0 = 0) : Closed ts := by
  intro t ht
  obtain ⟨us, rfl⟩ := List.getLast?_eq_some_iff.1 ht
  refine Bool.eq_false_iff.2 fun hmark => ?_
  rw [List.foldl_concat, depthAfter, if_pos (by simp [isOpener, hmark])] at h
  cases h

theorem inCondition_of_bracket {t : Token} (h : t.isOpener = true ∨ t.isCloser = true) :
    inCondition t = true := by
  simp only [inCondition, isTerminator, isMark_of_bracket h (c := '\x7b') (by decide),
    isMark_of_bracket h (c := ';') (by decide), isMark_of_bracket h (c := '\x7d') (by decide)]
  rfl

theorem depthAfter_of_not_bracket {t : Token} (h : ¬(t.isOpener = true ∨ t.isCloser = true))
    (d : Nat) : depthAfter d t = d := by
  rw [not_or] at h
  rw [depthAfter, if_neg h.1, if_neg h.2]

section Ident

variable {t : Token} (h : t.kind = .ident)

include h

theorem isMark_of_ident (c : Char) : t.isMark c = false :=
  isMark_of_kind (by rw [h]; decide) c

theorem isTerminator_of_ident : t.isTerminator = false := by
  simp [isTerminator, isMark_of_ident h]

theorem isOpener_of_ident : t.isOpener = false := by
  simp [isOpener, isMark_of_ident h]

theorem inCondition_of_ident : inCondition t = true := by
  simp [inCondition, isTerminator_of_ident h, isMark_of_ident h]

end Ident

/-- A selector has neither `;` nor brace: outside brackets it would end there. -/
theorem inCondition_of_through {d e : Nat} {us ts : List Token} (hlevel : level d (us ++ ts) = true)
    (h : through d us = some e) : ∀ u ∈ us, inCondition u = true := by
  induction us generalizing d with
  | nil => exact List.forall_mem_nil _
  | cons u us ih =>
    simp only [List.cons_append, level, Bool.and_eq_true, Bool.or_eq_true,
      decide_eq_true_eq] at hlevel
    rcases through_cons_eq_some h with ⟨hopen, h⟩ | ⟨hopen, hclose, -, h⟩ | ⟨hopen, hclose, hend, h⟩
    · rw [depthAfter, if_pos hopen] at hlevel
      exact List.forall_mem_cons.2 ⟨inCondition_of_bracket (.inl hopen), ih hlevel.2 h⟩
    · rw [depthAfter, if_neg (by simp [hopen]), if_pos hclose] at hlevel
      exact List.forall_mem_cons.2 ⟨inCondition_of_bracket (.inr hclose), ih hlevel.2 h⟩
    · rw [depthAfter_of_not_bracket (by simp [hopen, hclose])] at hlevel
      refine List.forall_mem_cons.2 ⟨hlevel.1.elim id fun hzero => ?_, ih hlevel.2 h⟩
      have hends := hend hzero
      simp only [endsSelector, Bool.or_eq_false_iff] at hends
      simp [inCondition, hends]

/-- Tokens no two of which a comment alone keeps apart, unless one of them is a `;` or a brace, and
none of which ends in a backslash. -/
structure TightParts (ts : List Token) : Prop where
  adjacent : ts.IsChain fun t u => inCondition t = true → inCondition u = true → t.Beside u
  unslashed : ∀ t ∈ ts, t.text.getLast? ≠ some '\\'

instance (ts : List Token) : Decidable (TightParts ts) :=
  decidable_of_iff
    (ts.IsChain (fun t u => inCondition t = true → inCondition u = true → t.Beside u) ∧
      ∀ t ∈ ts, t.text.getLast? ≠ some '\\')
    ⟨fun h => ⟨h.1, h.2⟩, fun h => ⟨h.adjacent, h.unslashed⟩⟩

theorem TightParts.tight {ts us : List Token} (h : TightParts ts) (hus : us <:+: ts)
    (hin : ∀ u ∈ us, inCondition u = true) : Tight us where
  adjacent := by
    have hchain := h.adjacent.infix hus
    exact hchain.imp_of_mem_imp fun t u ht hu hbeside => hbeside (hin t ht) (hin u hu)
  unslashed t ht := h.unslashed t (hus.subset ht)

/-- Tokens that can be written down again from each `;` or brace to the next. -/
def WritableParts (place : Location) (ts : List Token) : Prop :=
  ∀ us, us <:+: ts → (∀ u ∈ us, inCondition u = true) →
    Writable place (us.map (·.movedTo place))

theorem WritableParts.within {place : Location} {ts us : List Token} (h : WritableParts place ts)
    (hus : us <:+: ts) : WritableParts place us :=
  fun vs hvs => h vs (hvs.trans hus)

end Token

theorem Text.writableParts (place : Location) {source : Text}
    (htight : Token.TightParts (tokenize source).tokens) :
    Token.WritableParts place (tokenize source).tokens :=
  fun _ hus hin => Text.writable_of_infix place hus (htight.tight hus hin)

open Token (WritableParts)

/-! ### Pieces that can be written down again -/

/-- An identifier that can be written down again. -/
structure Token.IsWord (place : Location) (t : Token) : Prop where
  kind : t.kind = .ident
  stand : Stand place [t]

/-- Tokens that are read back as the value of one declaration. -/
structure Token.IsValue (place : Location) (vs : List Token) : Prop where
  ne_nil : vs ≠ []
  stand : Stand place vs
  plain : Plain vs
  inside : ∀ v ∈ vs, inCondition v = true
  closed : vs.foldl depthAfter 0 = 0
  alone : Declaration.nextProperty vs = none

/-- Tokens that are read back as the condition of an at-rule; there may be none. -/
structure Token.IsCondition (place : Location) (cs : List Token) : Prop where
  stand : cs ≠ [] → Stand place cs
  plain : Plain cs
  inside : ∀ c ∈ cs, inCondition c = true

/-- A declaration that can be written down again. -/
def Declaration.Stands (place : Location) (d : Declaration) : Prop :=
  ∃ key vs, Token.IsWord place key ∧ Token.IsValue place vs ∧ d.key = .literal key.text ∧
    d.value = Fragment.ofText (join vs)

/-- The head of an at-rule that can be written down again. -/
def AtRule.Stands (place : Location) (head : AtRule) : Prop :=
  ∃ name cs, Token.IsWord place name ∧ Token.IsCondition place cs ∧ head.name = name.text ∧
    head.kind = .ofName name.text ∧ head.condition = Fragment.ofText (join cs)

/-- The text of a selector begins, and not as an at-rule does. -/
def Selector.Leads (s : Selector) : Prop := ∃ c ∈ (Fragment.render s.fragments).head?, c ≠ '@'

section Stands

variable {place : Location}

theorem Token.isWord_movedTo {t : Token} {ts : List Token} (hw : WritableParts place ts)
    (ht : t ∈ ts) (hkind : t.kind = .ident) : IsWord place (t.movedTo place) where
  kind := hkind
  stand := by
    refine hw [t] ((List.singleton_infix_iff _ _).2 ht)
      (by simpa using inCondition_of_ident hkind) [t.movedTo place] List.infix_rfl
      (List.cons_ne_nil _ _) fun u hu => ?_
    obtain rfl : t.movedTo place = u := Option.some.inj hu
    exact isMark_of_ident hkind '('

theorem Token.foldl_movedTo (d : Nat) (ts : List Token) :
    (ts.map (·.movedTo place)).foldl depthAfter d = ts.foldl depthAfter d := by
  simp only [List.foldl_map, Declaration.depthAfter_movedTo]

theorem Token.Plain.movedTo {ts : List Token} (h : Plain ts) : Plain (ts.map (·.movedTo place)) := by
  intro t ht
  obtain ⟨u, hu, rfl⟩ := List.mem_map.1 ht
  exact h u hu

theorem Sheet.inCondition_movedTo (t : Token) : inCondition (t.movedTo place) = inCondition t := by
  simp [inCondition]

/-- Up to where a declaration ends there is no brace: outside brackets it would make a rule. -/
theorem Sheet.inCondition_of_startsRule {ending : Ending} {depth : Nat} {us ts : List Token}
    (hlevel : Token.level depth (us ++ ts) = true)
    (hends : startsRule ending depth (us ++ ts) = .ok false)
    (hus : ∀ u ∈ us, u.isTerminator = false) : ∀ u ∈ us, inCondition u = true := by
  induction us generalizing depth with
  | nil => exact List.forall_mem_nil _
  | cons u us ih =>
    obtain ⟨hu, hus⟩ := List.forall_mem_cons.1 hus
    simp only [List.cons_append, Token.level, Bool.and_eq_true, Bool.or_eq_true,
      decide_eq_true_eq] at hlevel
    rw [List.cons_append, startsRule] at hends
    split at hends
    · rename_i hbracket
      have hin := Token.inCondition_of_bracket (by simpa using hbracket)
      exact List.forall_mem_cons.2 ⟨hin, ih hlevel.2 hends hus⟩
    rename_i hbracket
    rw [Token.depthAfter_of_not_bracket (by simpa using hbracket)] at hlevel
    split at hends
    · cases hends
    rename_i hbrace
    rw [if_neg (by simp [hu])] at hends
    refine List.forall_mem_cons.2 ⟨hlevel.1.elim id fun hzero => ?_, ih hlevel.2 hends hus⟩
    simp only [hzero, decide_true, Bool.true_and, Bool.not_eq_true] at hbrace
    simp [inCondition, hbrace, hu]

/-- Brackets are closed up to where a statement ends. -/
theorem Token.foldl_of_level {d : Nat} {us ts : List Token} (h : level d (us ++ ts) = true)
    (hts : ∀ t ∈ ts.head?, inCondition t = false) : us.foldl depthAfter d = 0 := by
  have hlevel := level_append h
  cases ts with
  | nil => simpa [level] using hlevel
  | cons t ts => simpa [level, hts t rfl] using (Bool.and_eq_true_iff.1 hlevel).1

/-- What a declaration that does not dangle is made of. -/
theorem Declaration.exists_of_ofTokens {key : Token} {body : List Token}
    (hsound : (ofTokens key body).isDangling = false) :
    ∃ colon value, body = colon :: value ∧ colon.isMark ':' = true ∧ value ≠ [] ∧
      (key.kind = .ident ∨ key.kind = .placeholder) ∧
      (ofTokens key body).key = Fragment.ofToken key ∧
      (ofTokens key body).value = Fragment.ofTokens value := by
  unfold ofTokens at hsound ⊢
  split at hsound
  · cases hsound
  rename_i hkind
  rw [if_neg hkind]
  cases body with
  | nil => cases hsound
  | cons colon value =>
    simp only at hsound ⊢
    split at hsound
    · cases hsound
    rename_i hcolon
    split at hsound
    · cases hsound
    rename_i hvalue
    rw [if_neg hcolon, if_neg hvalue]
    refine ⟨colon, value, rfl, by simpa using hcolon, by simpa using hvalue, ?_, rfl, rfl⟩
    by_cases hident : key.kind = .ident
    · exact .inl hident
    · exact .inr (by simpa [hident] using hkind)

theorem Declaration.stands_readDeclaration {ending : Sheet.Ending} {key : Token} {ts : List Token}
    (hw : WritableParts place (key :: ts)) (hplain : Token.Plain (key :: ts))
    (hlevel : Token.level 0 (key :: ts) = true)
    (hends : Sheet.startsRule ending 0 (key :: ts) = .ok false)
    (hsound : (readDeclaration key ts).1.isDangling = false) :
    (readDeclaration key ts).1.Stands place := by
  obtain ⟨hkey, hrest⟩ := List.forall_mem_cons.1 hplain
  simp only [readDeclaration] at hsound ⊢
  split at hsound
  · cases hsound
  rename_i hown
  obtain ⟨colon, value, hbody, hcolon, hne, hkind, hfst, hsnd⟩ := exists_of_ofTokens hsound
  have hkind : key.kind = .ident := hkind.resolve_right hkey
  -- the value ends where the statement does
  obtain ⟨after, hafter⟩ : ∃ after, ts.dropWhile (!·.isTerminator) = after := ⟨_, rfl⟩
  have hts : ts = colon :: value ++ after := by
    rw [← hbody, ← hafter, List.takeWhile_append_dropWhile]
  have hstop : ∀ t ∈ after.head?, inCondition t = false := by
    intro t ht
    rw [← hafter] at ht
    have hterminator := List.head?_dropWhile_not (fun t : Token => !t.isTerminator) ts
    rw [Option.mem_def.1 ht] at hterminator
    simp only at hterminator
    simp [inCondition, hterminator]
  have hinside : ∀ t ∈ key :: colon :: value, inCondition t = true := by
    rw [hts, ← List.cons_append] at hlevel hends
    refine Sheet.inCondition_of_startsRule hlevel hends ?_
    refine List.forall_mem_cons.2 ⟨?_, fun t ht => ?_⟩
    · exact Token.isTerminator_of_ident hkind
    · rw [← hbody] at ht
      simpa using List.mem_takeWhile_imp ht
  have hwithin : value <:+: key :: ts := by
    rw [hts]
    exact ⟨[key, colon], after, by simp⟩
  have hsuffix : value ++ after <:+ key :: ts := by
    rw [hts]
    exact ⟨[key, colon], by simp⟩
  have hclosed := Token.foldl_of_level (Token.level_suffix hsuffix hlevel) hstop
  have hvalue : ∀ t ∈ value, inCondition t = true := fun t ht =>
    hinside t (List.mem_cons_of_mem _ (List.mem_cons_of_mem _ ht))
  refine ⟨key.movedTo place, value.map (·.movedTo place),
    Token.isWord_movedTo hw List.mem_cons_self hkind, ⟨?_, ?_, ?_, ?_, ?_, ?_⟩, ?_, ?_⟩
  · simpa using hne
  · refine hw value hwithin hvalue _ List.infix_rfl (by simpa using hne) (Token.closed_of_foldl ?_)
    rw [Token.foldl_movedTo, hclosed]
  · exact (hplain.within hwithin).movedTo
  · intro t ht
    obtain ⟨u, hu, rfl⟩ := List.mem_map.1 ht
    rw [Sheet.inCondition_movedTo]
    exact hvalue u hu
  · rw [Token.foldl_movedTo, hclosed]
  · rw [nextProperty_movedTo]
    simpa [hbody, ownLength?, hcolon] using hown
  · rw [hfst, Fragment.ofToken, if_neg hkey]
    rfl
  · rw [hsnd, Fragment.ofTokens_of_plain (hplain.within hwithin), Token.join_movedTo]

theorem AtRule.stands_of_tokens {name brace : Token} {ts rest : List Token} {location : Location}
    (hw : WritableParts place (name :: ts)) (hplain : Token.Plain (name :: ts))
    (hlevel : Token.level 0 (name :: ts) = true) (hkind : name.kind = .ident)
    (hrest : ts.dropWhile inCondition = brace :: rest) :
    AtRule.Stands place
      { kind := .ofName name.text
        name := name.text
        condition := Fragment.ofTokens (ts.takeWhile inCondition)
        location := some location } := by
  obtain ⟨cs, hcs⟩ : ∃ cs, ts.takeWhile inCondition = cs := ⟨_, rfl⟩
  have hts : ts = cs ++ brace :: rest := by
    rw [← hcs, ← hrest, List.takeWhile_append_dropWhile]
  have hwithin : cs <:+: name :: ts := by
    rw [hts]
    exact ⟨[name], brace :: rest, by simp⟩
  have hstop : ∀ t ∈ (brace :: rest).head?, inCondition t = false := by
    rintro t ⟨⟩
    have hfirst := List.head?_dropWhile_not inCondition ts
    rwa [hrest] at hfirst
  have hclosed : cs.foldl depthAfter 0 = 0 := by
    have hsuffix := Token.level_suffix (List.suffix_cons name ts) hlevel
    rw [hts] at hsuffix
    exact Token.foldl_of_level hsuffix hstop
  have hin : ∀ t ∈ cs, inCondition t = true := by
    rw [← hcs]
    exact fun t ht => List.mem_takeWhile_imp ht
  refine ⟨name.movedTo place, cs.map (·.movedTo place),
    Token.isWord_movedTo hw List.mem_cons_self hkind, ⟨fun hne => ?_, ?_, ?_⟩, rfl, rfl, ?_⟩
  · refine hw cs hwithin hin _ List.infix_rfl hne (Token.closed_of_foldl ?_)
    rw [Token.foldl_movedTo, hclosed]
  · exact (hplain.within hwithin).movedTo
  · intro t ht
    obtain ⟨u, hu, rfl⟩ := List.mem_map.1 ht
    rw [Sheet.inCondition_movedTo]
    exact hin u hu
  · rw [hcs, Fragment.ofTokens_of_plain (hplain.within hwithin), Token.join_movedTo]

/-- The text of tokens that stand begins with a lexeme. -/
theorem Token.Stand.exists_read {t : Token} {ts : List Token} (h : Stand place (t :: ts)) :
    ∃ rest, Lexeme.read (t.text ++ rest) = some (.token t.kind t.text t.value) := by
  have hfirst : ∀ {s r : Text} {u : Token} {us : List Token}, Text.Yields place s (u :: us) r →
      ∃ rest, Lexeme.read (u.text ++ rest) = some (.token u.kind u.text u.value) := by
    rintro s r u us ⟨⟩
    exact ⟨_, ‹_›⟩
  exact hfirst (u := { t with spaced := false }) (h [] [] (List.forall_mem_nil _) (by decide))

/-- A token that stands has a text, which begins with the sign of an at-rule only if it is that. -/
theorem Token.Stand.leads {t : Token} (h : Stand place [t]) (hsign : t.isMark '@' = false) :
    ∃ c ∈ t.text.head?, c ≠ '@' := by
  obtain ⟨rest, hread⟩ := h.exists_read
  obtain ⟨c, x, hx⟩ : ∃ c x, t.text = c :: x :=
    List.exists_cons_of_ne_nil (Lexeme.text_ne_nil_of_read hread)
  refine ⟨c, by rw [hx]; rfl, ?_⟩
  rintro rfl
  rw [hx, List.cons_append, Lexeme.read_punct (by decide)] at hread
  simp only [Option.some.injEq, Lexeme.token.injEq] at hread
  rw [isMark, ← hread.1, hx, ← hread.2.1] at hsign
  cases hsign

theorem Selector.leads_of_fragmentsAfter {t : Token} {ts : List Token} {fs : List Fragment}
    (hw : Writable place ((t :: ts).map (·.movedTo place))) (hplain : t.kind ≠ .placeholder)
    (hsign : t.isMark '@' = false) (h : fragmentsAfter none (t :: ts) = .ok fs) :
    ∃ c ∈ (Fragment.render fs).head?, c ≠ '@' := by
  rw [fragmentsAfter] at h
  split at h
  · split at h
    · cases h
    split at h
    · cases h
    · obtain ⟨rest, -, rfl⟩ := map_eq_ok.1 h
      refine ⟨' ', ?_, by decide⟩
      cases Combinator.ofToken t <;> rfl
  split at h
  · obtain ⟨rest, -, rfl⟩ := map_eq_ok.1 h
    exact ⟨'&', rfl, by decide⟩
  split at h
  · cases h
  · obtain ⟨rest, -, rfl⟩ := map_eq_ok.1 h
    have htext : ∃ c ∈ t.text.head?, c ≠ '@' := by
      by_cases hparen : t.isMark '(' = true
      · simp only [Token.isMark, Bool.and_eq_true, decide_eq_true_eq] at hparen
        exact ⟨'(', by rw [hparen.2]; rfl, by decide⟩
      · have hstand : Stand place [t.movedTo place] := by
          refine hw _ ?_ (List.cons_ne_nil _ _) fun u hu => ?_
          · exact ⟨[], ts.map (·.movedTo place), rfl⟩
          · obtain rfl : t.movedTo place = u := Option.some.inj hu
            simpa using hparen
        exact hstand.leads (by simpa using hsign)
    obtain ⟨c, hc, hne⟩ := htext
    exact ⟨c, List.mem_head?_append_of_mem_head? (List.mem_head?_append_of_mem_head? hc), hne⟩

theorem Selector.Groups.leads_of_selectors {e : Error} {ending : Sheet.Ending} {t : Token}
    {ts : List Token} {g : Groups} {selectors : List Selector}
    (hw : ∀ group ∈ g.groups, Writable place (group.map (·.movedTo place)))
    (hplain : Token.Plain (t :: ts)) (hsign : t.isMark '@' = false)
    (hopens : Sheet.startsRule ending 0 (t :: ts) = .ok true)
    (hsplit : split e 0 false (t :: ts) = .ok g) (h : g.selectors = .ok selectors) :
    ∀ s ∈ selectors.head?, s.Leads := by
  have hne := (fragments_ne_nil hsplit h).2
  obtain ⟨first, others, hgroups, ⟨hfront, -⟩, -⟩ := through_of_split hsplit hopens
  rw [hgroups] at hw
  unfold Groups.selectors at h
  split at h
  · cases h
  rw [hgroups, mapM_eq_ok] at h
  obtain ⟨s, ss, hs, -, rfl⟩ := List.forall₂_cons_left_iff.1 h
  rintro _ ⟨⟩
  obtain ⟨fs, hfs, rfl⟩ := map_eq_ok.1 hs
  cases first with
  | nil =>
    rw [fragmentsAfter] at hfs
    cases hfs
    exact absurd rfl (hne _ List.mem_cons_self)
  | cons u us =>
    obtain ⟨rfl, hus⟩ := List.cons_prefix_cons.1 hfront
    exact leads_of_fragmentsAfter (hw _ List.mem_cons_self) (hplain u List.mem_cons_self) hsign hfs

/-- The selectors of a level source can be written down again, token by token. -/
theorem Token.WritableParts.groups {e : Error} {ending : Sheet.Ending} {ts : List Token}
    {g : Selector.Groups} (hw : WritableParts place ts) (hlevel : level 0 ts = true)
    (hopens : Sheet.startsRule ending 0 ts = .ok true)
    (hsplit : Selector.Groups.split e 0 false ts = .ok g) :
    ∀ group ∈ g.groups, Writable place (group.map (·.movedTo place)) := by
  intro group hmem
  obtain ⟨hwithin, hthrough⟩ := Selector.Groups.infix_of_split hopens hsplit group hmem
  have ⟨before, after, heq⟩ := hwithin
  have hsuffix : group ++ after <:+ ts := ⟨before, by rw [← heq, List.append_assoc]⟩
  exact hw group hwithin (inCondition_of_through (level_suffix hsuffix hlevel) hthrough)

end Stands

namespace Sheet

/-- **A source without placeholders, whose brackets are closed at every `;` and brace, is read as a
sheet all of which can be written down again**, if its tokens can. -/
theorem legible_of_run {place : Location} {ending : Ending} {tokens : List Token} {sheet : Sheet}
    (hw : WritableParts place tokens) (hplain : Token.Plain tokens)
    (hlevel : Token.level 0 tokens = true)
    (h : (run ending { tokens := tokens }).result = .ok sheet) :
    Sheet.All (fun ss => (∀ s ∈ ss, s.Stands place) ∧ ∀ s ∈ ss.head?, s.Leads)
      (fun d => d.isDangling = false → d.Stands place) (·.Stands place) sheet := by
  refine all_of_run ⟨List.forall_mem_nil _, nofun⟩ ?_ h
  refine ⟨fun hsuffix hsign hopens hsplit hread => ?_, fun hsuffix hends => ?_, fun _ => nofun,
    fun hsuffix hkind hrest _ => ?_⟩
  · have hgroups := (hw.within hsuffix.isInfix).groups (Token.level_suffix hsuffix hlevel) hopens
      hsplit
    have hplain := hplain.within hsuffix.isInfix
    exact ⟨Selector.Groups.stands_of_selectors hgroups hplain hopens hsplit hread,
      Selector.Groups.leads_of_selectors hgroups hplain hsign hopens hsplit hread⟩
  · exact Declaration.stands_readDeclaration (hw.within hsuffix.isInfix)
      (hplain.within hsuffix.isInfix) (Token.level_suffix hsuffix hlevel) hends
  · have hsuffix := (List.suffix_cons _ _).trans hsuffix
    exact AtRule.stands_of_tokens (hw.within hsuffix.isInfix)
      (hplain.within hsuffix.isInfix) (Token.level_suffix hsuffix hlevel) hkind hrest

end Sheet

end ScopedCss
