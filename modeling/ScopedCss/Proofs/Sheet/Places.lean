/-
The places in a sheet. All that reading puts into a sheet covers what its location says,
placeholders and malformed declarations too (`Sheet.placed_of_parse`), and an error that reading
ends with is placed in the source or at its end (`Sheet.placed_of_parse_error`).
-/
import ScopedCss.Proofs.Sheet.Placeholders
import ScopedCss.Proofs.Token.Places

namespace ScopedCss

/-! ### Places in a sheet -/

/-- A place is given, and `P` holds of it. -/
def Location.Given (P : Location → Prop) (place : Option Location) : Prop :=
  ∃ l, place = some l ∧ P l

def Fragment.Placed (P : Location → Prop) : Fragment → Prop
  | .placeholder p => Location.Given P p.location
  | _ => True

def Selector.Placed (P : Location → Prop) (s : Selector) : Prop := ∀ f ∈ s.fragments, f.Placed P

structure Declaration.Placed (P : Location → Prop) (d : Declaration) : Prop where
  key : d.key.Placed P
  value : ∀ f ∈ d.value, f.Placed P
  location : Location.Given P d.location

structure AtRule.Placed (P : Location → Prop) (a : AtRule) : Prop where
  condition : ∀ f ∈ a.condition, f.Placed P
  location : Location.Given P a.location

mutual

def Content.Placed (P : Location → Prop) : Content → Prop
  | .rule selectors declarations nested location =>
    (∀ s ∈ selectors, s.Placed P) ∧ (∀ d ∈ declarations, d.Placed P) ∧ Sheet.Placed P nested ∧
      Location.Given P location
  | .atRule head body => head.Placed P ∧ Sheet.Placed P body

/-- `P` holds of all the places in a sheet, and none is missing. -/
def Sheet.Placed (P : Location → Prop) : Sheet → Prop
  | [] => True
  | c :: cs => c.Placed P ∧ Sheet.Placed P cs

end

section Mono

variable {P Q : Location → Prop}

theorem Location.Given.mono (h : ∀ l, P l → Q l) {place : Option Location}
    (hp : Location.Given P place) : Location.Given Q place := by
  obtain ⟨l, hl, hP⟩ := hp
  exact ⟨l, hl, h l hP⟩

theorem Fragment.Placed.mono (h : ∀ l, P l → Q l) {f : Fragment} (hf : f.Placed P) :
    f.Placed Q := by
  cases f with
  | placeholder p => exact Location.Given.mono h hf
  | literal x => trivial
  | marker => trivial
  | combinator c => trivial

theorem Selector.Placed.mono (h : ∀ l, P l → Q l) {s : Selector} (hs : s.Placed P) :
    s.Placed Q := fun f hf => (hs f hf).mono h

theorem Declaration.Placed.mono (h : ∀ l, P l → Q l) {d : Declaration} (hd : d.Placed P) :
    d.Placed Q :=
  ⟨hd.key.mono h, fun f hf => (hd.value f hf).mono h, hd.location.mono h⟩

theorem AtRule.Placed.mono (h : ∀ l, P l → Q l) {a : AtRule} (ha : a.Placed P) : a.Placed Q :=
  ⟨fun f hf => (ha.condition f hf).mono h, ha.location.mono h⟩

mutual

theorem Content.Placed.mono (h : ∀ l, P l → Q l) : ∀ {c : Content}, c.Placed P → c.Placed Q
  | .rule .., ⟨hselectors, hdeclarations, hnested, hlocation⟩ =>
    ⟨fun s hs => (hselectors s hs).mono h, fun d hd => (hdeclarations d hd).mono h,
      Sheet.Placed.mono h hnested, hlocation.mono h⟩
  | .atRule .., ⟨hhead, hbody⟩ => ⟨hhead.mono h, Sheet.Placed.mono h hbody⟩

theorem Sheet.Placed.mono (h : ∀ l, P l → Q l) : ∀ {s : Sheet}, Sheet.Placed P s →
    Sheet.Placed Q s
  | [], _ => trivial
  | _ :: _, ⟨hc, hcs⟩ => ⟨Content.Placed.mono h hc, Sheet.Placed.mono h hcs⟩

end

end Mono

/-- `P` holds of the places of tokens, and of the spans from each of them to a later one. -/
structure Token.Spanning (P : Location → Prop) (ts : List Token) : Prop where
  each : ∀ t ∈ ts, P t.location
  spans : ts.Pairwise fun a b => P (a.span b)

variable {P : Location → Prop}

theorem Token.Spanning.sublist {ts us : List Token} (h : Spanning P ts) (hsub : us.Sublist ts) :
    Spanning P us :=
  ⟨fun t ht => h.each t (hsub.subset ht), h.spans.sublist hsub⟩

/-! ### What is read is placed -/

theorem Fragment.From.placed {ts : List Token} {f : Fragment} (h : f.From ts)
    (ht : ∀ t ∈ ts, P t.location) : f.Placed P := by
  cases f with
  | placeholder p =>
    obtain ⟨t, hmem, -, rfl⟩ := h p rfl
    exact ⟨t.location, rfl, ht t hmem⟩
  | literal x => trivial
  | marker => trivial
  | combinator c => trivial

theorem Fragment.placed_ofToken {t : Token} (h : P t.location) : (ofToken t).Placed P :=
  (from_ofToken List.mem_cons_self).placed (List.forall_mem_singleton.2 h)

theorem Fragment.placed_ofTokens {ts : List Token} (h : ∀ t ∈ ts, P t.location) :
    ∀ f ∈ ofTokens ts, f.Placed P :=
  fun f hf => (from_ofTokens ts f hf).placed h

theorem Selector.Groups.placed_selectors {g : Groups} {selectors : List Selector}
    (ht : ∀ t ∈ g.groups.flatten, P t.location) (h : g.selectors = .ok selectors) :
    ∀ s ∈ selectors, s.Placed P :=
  fun s hs f hf => (from_selectors h s hs f hf).placed ht

namespace Declaration

theorem given_placeOf {key : Token} {body : List Token} (h : Token.Spanning P (key :: body)) :
    P (placeOf key body) := by
  unfold placeOf
  cases hlast : body.getLast? with
  | none => exact h.each key List.mem_cons_self
  | some last => exact (List.pairwise_cons.1 h.spans).1 last (List.mem_of_getLast? hlast)

theorem placed_dangle {key : Token} {body : List Token} (h : Token.Spanning P (key :: body))
    (reason : Text) : (dangle key body reason).Placed P := by
  have hbody := (List.forall_mem_cons.1 h.each).2
  refine ⟨trivial, ?_, _, rfl, given_placeOf h⟩
  simp only [dangle]
  split
  · exact Fragment.placed_ofTokens (List.forall_mem_nil _)
  · split
    · exact Fragment.placed_ofTokens (List.forall_mem_cons.1 hbody).2
    · exact Fragment.placed_ofTokens hbody

theorem placed_ofTokens {key : Token} {body : List Token} (h : Token.Spanning P (key :: body)) :
    (ofTokens key body).Placed P := by
  unfold ofTokens
  split
  · exact placed_dangle h _
  split
  · exact placed_dangle h _
  · split
    · exact placed_dangle h _
    split
    · exact placed_dangle h _
    · obtain ⟨hkey, hbody⟩ := List.forall_mem_cons.1 h.each
      exact ⟨Fragment.placed_ofToken hkey,
        Fragment.placed_ofTokens (List.forall_mem_cons.1 hbody).2, _, rfl, given_placeOf h⟩

theorem placed_readDeclaration {key : Token} {ts : List Token}
    (h : Token.Spanning P (key :: ts)) : (readDeclaration key ts).1.Placed P := by
  have hbody : (ts.takeWhile (!·.isTerminator)).Sublist ts := (List.takeWhile_prefix _).sublist
  simp only [readDeclaration]
  split
  · exact placed_dangle (h.sublist (((List.take_sublist _ _).trans hbody).cons_cons key)) _
  · exact placed_ofTokens (h.sublist (hbody.cons_cons key))

theorem placed_readUnterminated {key : Token} {ts : List Token}
    (h : Token.Spanning P (key :: ts)) : (readUnterminated key ts).1.Placed P :=
  placed_dangle (h.sublist ((List.take_sublist _ _).cons_cons key)) _

end Declaration

theorem Sheet.placed_iff {s : Sheet} : Sheet.Placed P s ↔ ∀ c ∈ s, c.Placed P := by
  induction s with
  | nil => simp [Sheet.Placed]
  | cons c s ih => simp [Sheet.Placed, ih]

def Item.Placed (P : Location → Prop) : Item → Prop
  | declaration d => d.Placed P
  | content c => c.Placed P

namespace Item

theorem Placed.mono {Q : Location → Prop} (h : ∀ l, P l → Q l) {i : Item} (hi : i.Placed P) :
    i.Placed Q := by
  cases i with
  | declaration d => exact Declaration.Placed.mono h hi
  | content c => exact Content.Placed.mono h hi

theorem placed_bareRule {ds : List Declaration} (h : ∀ d ∈ ds, d.Placed P) :
    ∀ c ∈ bareRule ds, c.Placed P := by
  cases ds with
  | nil => exact List.forall_mem_nil _
  | cons d ds =>
    intro c hc
    cases List.mem_singleton.1 hc
    exact ⟨List.forall_mem_nil _, h, trivial, (h d List.mem_cons_self).location⟩

theorem placed_contents {run : List Declaration} {items : List Item}
    (hrun : ∀ d ∈ run, d.Placed P) (h : ∀ i ∈ items, i.Placed P) :
    ∀ c ∈ contents run items, c.Placed P := by
  have hbare : ∀ {run : List Declaration}, (∀ d ∈ run, d.Placed P) →
      ∀ c ∈ bareRule run.reverse, c.Placed P := fun hr =>
    placed_bareRule fun d hd => hr d (List.mem_reverse.1 hd)
  induction items generalizing run with
  | nil => exact hbare hrun
  | cons i items ih =>
    obtain ⟨hi, hitems⟩ := List.forall_mem_cons.1 h
    cases i with
    | declaration d => exact ih (List.forall_mem_cons.2 ⟨hi, hrun⟩) hitems
    | content c =>
      intro c' hc'
      rcases List.mem_append.1 hc' with hc' | hc'
      · exact hbare hrun c' hc'
      · rcases List.mem_cons.1 hc' with rfl | hc'
        · exact hi
        · exact ih (List.forall_mem_nil _) hitems c' hc'

end Item

namespace Sheet

def Head.Placed (P : Location → Prop) : Head → Prop
  | rule selectors location => (∀ s ∈ selectors, s.Placed P) ∧ P location
  | atRule head => head.Placed P

theorem Head.Placed.mono {Q : Location → Prop} (h : ∀ l, P l → Q l) {head : Head}
    (hh : head.Placed P) : head.Placed Q := by
  cases head with
  | rule selectors location => exact ⟨fun s hs => (hh.1 s hs).mono h, h _ hh.2⟩
  | atRule a => exact AtRule.Placed.mono h hh

theorem Head.placed_close {head : Head} {items : List Item} (hh : head.Placed P)
    (h : ∀ i ∈ items, i.Placed P) : (head.close items).Placed P := by
  cases head with
  | rule selectors location =>
    refine ⟨hh.1, ?_, placed_iff.2 ?_, _, rfl, hh.2⟩
    · intro d hd
      obtain ⟨i, hi, hdecl⟩ := List.mem_filterMap.1 hd
      cases i with
      | declaration d' => cases hdecl; exact h _ hi
      | content c => cases hdecl
    · intro c hc
      obtain ⟨i, hi, hcontent⟩ := List.mem_filterMap.1 hc
      cases i with
      | declaration d => cases hcontent
      | content c' => cases hcontent; exact h _ hi
  | atRule a => exact ⟨hh, placed_iff.2 (Item.placed_contents (List.forall_mem_nil _) h)⟩

/-- All that was read so far is placed, in the open blocks too, and the tokens to come span
places. -/
structure State.Placed (P : Location → Prop) (s : State) : Prop where
  tokens : Token.Spanning P s.tokens
  items : ∀ i ∈ s.items, i.Placed P
  blocks : ∀ b ∈ s.blocks, b.head.Placed P ∧ P b.opening ∧ ∀ i ∈ b.before, i.Placed P

namespace State.Placed

variable {s s' : State}

theorem start {tokens : List Token} (h : Token.Spanning P tokens) :
    State.Placed P { tokens := tokens } :=
  ⟨h, List.forall_mem_nil _, List.forall_mem_nil _⟩

theorem openBlock (hs : s.Placed P) {head : Head} (hh : head.Placed P) {opening : Location}
    (ho : P opening) {rest : List Token} (hr : Token.Spanning P rest) :
    (s.openBlock head opening rest).Placed P where
  tokens := hr
  items := List.forall_mem_nil _
  blocks := List.forall_mem_cons.2 ⟨⟨hh, ho, hs.items⟩, hs.blocks⟩

theorem addDeclaration (hs : s.Placed P) {read : Declaration × List Token} (hd : read.1.Placed P)
    (hr : Token.Spanning P read.2) : (s.addDeclaration read).Placed P where
  tokens := hr
  items := List.forall_mem_cons.2 ⟨hd, hs.items⟩
  blocks := hs.blocks

theorem moves {ending : Ending} (h : Moves ending s s') (hs : s.Placed P) : s'.Placed P := by
  have hrest := hs.tokens.sublist h.suffix.sublist
  cases h with
  | close htokens hbrace hblocks =>
    have hall := hs.blocks
    rw [hblocks] at hall
    obtain ⟨⟨hhead, -, hbefore⟩, hblocks'⟩ := List.forall_mem_cons.1 hall
    have hclosed := Head.placed_close hhead fun i hi => hs.items i (List.mem_reverse.1 hi)
    exact ⟨hrest, List.forall_mem_cons.2 ⟨hclosed, hbefore⟩, hblocks'⟩
  | skip => exact ⟨hrest, hs.items, hs.blocks⟩
  | @atRule sign name brace ts rest htokens _ _ hbody =>
    have htokens' := hs.tokens
    rw [htokens] at htokens'
    have hts : ts.Sublist (sign :: name :: ts) := ((List.Sublist.refl ts).cons name).cons sign
    have hbrace : brace ∈ name :: ts :=
      List.mem_cons_of_mem name ((List.dropWhile_sublist inCondition).subset
        (hbody ▸ List.mem_cons_self))
    refine hs.openBlock ?_ ?_ hrest
    · refine ⟨Fragment.placed_ofTokens
        (htokens'.sublist ((List.takeWhile_prefix _).sublist.trans hts)).each, _, rfl, ?_⟩
      exact (List.pairwise_cons.1 htokens'.spans).1 brace hbrace
    · exact htokens'.each brace (List.mem_cons_of_mem sign hbrace)
  | @declaration t ts htokens =>
    have htokens' := hs.tokens
    rw [htokens] at htokens'
    exact hs.addDeclaration (Declaration.placed_readDeclaration htokens') hrest
  | @unterminated t ts htokens =>
    have htokens' := hs.tokens
    rw [htokens] at htokens'
    exact hs.addDeclaration (Declaration.placed_readUnterminated htokens') hrest
  | @rule t ts g selectors htokens _ _ hsplit hread =>
    have htokens' := hs.tokens
    rw [htokens] at htokens'
    obtain ⟨-, front, hts, hsub⟩ := Selector.Groups.split_spec hsplit
    have hfront : g.groups.flatten.Sublist (t :: ts) :=
      hts ▸ hsub.trans (List.sublist_append_left _ _)
    refine hs.openBlock ?_ ?_ hrest
    · exact ⟨Selector.Groups.placed_selectors (htokens'.sublist hfront).each hread,
        htokens'.each t List.mem_cons_self⟩
    · exact htokens'.each g.brace (hts ▸ List.mem_append_right _ List.mem_cons_self)

end State.Placed

end Sheet

/-! ### What a source reads as -/

/-- The tokens of a source cover what they say, and so do the spans between them. -/
theorem Text.spanning_tokenize (source : Text) :
    Token.Spanning (Location.Covers source) (Text.tokenize source).tokens := by
  have hcovers := (Lexer.covers_tokens _ rfl (.start source)).1
  obtain ⟨stop, -, htiled⟩ := Lexer.tiled_tokens _ rfl (.start source)
  refine ⟨hcovers, htiled.pairwise.2.imp_of_mem ?_⟩
  intro a b ha hb hab
  exact (hcovers a ha).span (hcovers b hb) hab

/-- An error that is placed in a source, or at its end. -/
def Error.PlacedIn (source : Text) (e : Error) : Prop :=
  ∃ l, e.location = some l ∧ l.IsRight source ∧ (l.start < l.stop ∨ l = .endOf source)

theorem Error.placedIn_of_covers {source : Text} {l : Location} (h : l.Covers source)
    (fault : Fault) : Error.PlacedIn source ⟨fault, some l⟩ :=
  ⟨l, rfl, h.toIsRight, .inl h.nonempty⟩

theorem Error.placedIn_endOf (source : Text) (fault : Fault) :
    Error.PlacedIn source ⟨fault, some (.endOf source)⟩ :=
  ⟨_, rfl, Location.isRight_endOf source, .inr rfl⟩

theorem Text.given_of_failure {source : Text} {e : Error}
    (h : (Text.tokenize source).failure = some e) :
    Location.Given (Location.Covers source) e.location := by
  obtain ⟨fault, place, rfl, hplace⟩ := (Lexer.covers_tokens _ rfl (.start source)).2 e h
  exact ⟨place, rfl, hplace⟩

theorem Text.placedIn_of_failure {source : Text} {e : Error}
    (h : (Text.tokenize source).failure = some e) : e.PlacedIn source := by
  obtain ⟨l, hl, hplace⟩ := Text.given_of_failure h
  exact ⟨l, hl, hplace.toIsRight, .inl hplace.nonempty⟩

theorem Error.FoundAt.placedIn {source : Text} {ts : List Token} {e : Error} (h : e.FoundAt ts)
    (ht : ∀ t ∈ ts, t.location.Covers source) : e.PlacedIn source := by
  obtain ⟨fault, t, hmem, rfl⟩ := h
  exact Error.placedIn_of_covers (ht t hmem) _

namespace Sheet

theorem Fails.placedIn {source : Text} {s : State} {e : Error}
    (h : Fails (.ofSource source (Text.tokenize source).failure) s e)
    (hs : s.Placed (Location.Covers source)) : e.PlacedIn source := by
  cases h with
  | lexical hfailure => exact Text.placedIn_of_failure hfailure
  | token hfound => exact hfound.placedIn hs.tokens.each
  | block hb => exact Error.placedIn_of_covers (hs.blocks _ hb).2.1 _
  | ending => exact Error.placedIn_endOf source _

/-- All that a source reads as is where it says. -/
theorem placed_of_parse {source : Text} {sheet : Sheet} (h : Sheet.parse source = .ok sheet) :
    Sheet.Placed (Location.Covers source) sheet := by
  obtain ⟨last, hlast, -, -, -, rfl⟩ := exists_of_run (fun _ _ => State.Placed.moves)
    (State.Placed.start (Text.spanning_tokenize source)) h
  exact placed_iff.2 (Item.placed_contents (List.forall_mem_nil _)
    fun i hi => hlast.items i (List.mem_reverse.1 hi))

/-- Where reading a source fails is in the source or at its end. -/
theorem placed_of_parse_error {source : Text} {e : Error} (h : Sheet.parse source = .error e) :
    e.PlacedIn source := by
  obtain ⟨last, hlast, hend⟩ := exists_last
    (fun _ _ hstep => State.Placed.moves (moves_of_step hstep))
    (State.Placed.start (Text.spanning_tokenize source))
  rcases hend with ⟨sheet, -, hok⟩ | ⟨e', hstep, herror⟩
  · cases hok.symm.trans h
  · cases herror.symm.trans h
    exact (step_eq_failed hstep).placedIn hlast

end Sheet

/-- Where reading a selector list fails is in the source or at its end. -/
theorem Selector.placed_of_readList_error {source : Text} {e : Error}
    (h : Selector.readList source = .error e) : e.PlacedIn source := by
  have hcovers := (Text.spanning_tokenize source).each
  simp only [readList] at h
  rcases bind_eq_error.1 h with hsplit | ⟨g, hsplit, h⟩
  · rcases Groups.split_error hsplit with rfl | hfound
    · unfold Sheet.Ending.inSelector Sheet.Ending.ofSource
      cases hfailure : (Text.tokenize source).failure with
      | none => exact Error.placedIn_endOf source _
      | some e => exact Text.placedIn_of_failure hfailure
    · exact hfound.placedIn hcovers
  · rcases bind_eq_error.1 h with hread | ⟨selectors, -, hpure⟩
    · exact (Groups.selectors_error hsplit hread).placedIn hcovers
    · cases hpure

end ScopedCss
