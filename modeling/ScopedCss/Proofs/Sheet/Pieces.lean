/-
The pieces of a sheet. A sheet is made of selector lists, declarations and heads of at-rules, each
read from the tokens at hand; what holds of every piece where it is read holds of all pieces of the
sheet (`Sheet.all_of_run`), and what is kept where pieces are put together holds of all its items
(`Sheet.exists_items_of_run`).
-/
import ScopedCss.Proofs.Sheet.Expansion
import ScopedCss.Proofs.Sheet.Faults

namespace ScopedCss

mutual

def Content.All (R : List Selector → Prop) (D : Declaration → Prop) (A : AtRule → Prop) :
    Content → Prop
  | .rule selectors declarations nested _ =>
    R selectors ∧ (∀ d ∈ declarations, D d) ∧ Sheet.All R D A nested
  | .atRule head body => A head ∧ Sheet.All R D A body

/-- All selector lists, declarations and heads of at-rules in a sheet are as said. -/
def Sheet.All (R : List Selector → Prop) (D : Declaration → Prop) (A : AtRule → Prop) :
    Sheet → Prop
  | [] => True
  | c :: cs => c.All R D A ∧ Sheet.All R D A cs

end

section All

variable {R : List Selector → Prop} {D : Declaration → Prop} {A : AtRule → Prop}

theorem Sheet.all_append {s t : Sheet} :
    Sheet.All R D A (s ++ t) ↔ Sheet.All R D A s ∧ Sheet.All R D A t := by
  induction s with
  | nil => simp [Sheet.All]
  | cons c s ih => simp [Sheet.All, ih, and_assoc]

theorem Sheet.all_iff {s : Sheet} : Sheet.All R D A s ↔ ∀ c ∈ s, c.All R D A := by
  induction s with
  | nil => simp [Sheet.All]
  | cons c s ih => simp [Sheet.All, ih]

def Item.All (R : List Selector → Prop) (D : Declaration → Prop) (A : AtRule → Prop) : Item → Prop
  | declaration d => D d
  | content c => c.All R D A

theorem Item.all_bareRule (hbare : R []) {ds : List Declaration} (h : ∀ d ∈ ds, D d) :
    Sheet.All R D A (bareRule ds) := by
  cases ds with
  | nil => trivial
  | cons d ds => exact ⟨⟨hbare, h, trivial⟩, trivial⟩

theorem Item.all_contents (hbare : R []) {run : List Declaration} {items : List Item}
    (hrun : ∀ d ∈ run, D d) (h : ∀ i ∈ items, i.All R D A) :
    Sheet.All R D A (contents run items) := by
  have hreverse : ∀ {run : List Declaration}, (∀ d ∈ run, D d) → ∀ d ∈ run.reverse, D d :=
    fun hrun d hd => hrun d (List.mem_reverse.1 hd)
  induction items generalizing run with
  | nil => exact all_bareRule hbare (hreverse hrun)
  | cons i items ih =>
    obtain ⟨hi, hitems⟩ := List.forall_mem_cons.1 h
    cases i with
    | declaration d => exact ih (List.forall_mem_cons.2 ⟨hi, hrun⟩) hitems
    | content c =>
      exact Sheet.all_append.2
        ⟨all_bareRule hbare (hreverse hrun), hi, ih (List.forall_mem_nil _) hitems⟩

namespace Sheet

def Head.All (R : List Selector → Prop) (A : AtRule → Prop) : Head → Prop
  | rule selectors _ => R selectors
  | atRule head => A head

theorem Head.all_close (hbare : R []) {head : Head} {items : List Item} (hh : head.All R A)
    (hi : ∀ i ∈ items, i.All R D A) : (head.close items).All R D A := by
  cases head with
  | atRule a => exact ⟨hh, Item.all_contents hbare (List.forall_mem_nil _) hi⟩
  | rule selectors location =>
    refine ⟨hh, ?_, all_iff.2 ?_⟩
    · intro d hd
      obtain ⟨i, hmem, hdeclaration⟩ := List.mem_filterMap.1 hd
      cases i with
      | declaration d' =>
        cases hdeclaration
        exact hi _ hmem
      | content c => cases hdeclaration
    · intro c hc
      obtain ⟨i, hmem, hcontent⟩ := List.mem_filterMap.1 hc
      cases i with
      | declaration d => cases hcontent
      | content c' =>
        cases hcontent
        exact hi _ hmem

/-- The pieces that are read from `tokens`, in whatever state, are as said. -/
structure Pieces (ending : Ending) (tokens : List Token) (R : List Selector → Prop)
    (D : Declaration → Prop) (A : AtRule → Prop) : Prop where
  rule : ∀ {t : Token} {ts : List Token} {g : Selector.Groups} {selectors : List Selector},
    t :: ts <:+ tokens → t.isMark '@' = false → startsRule ending 0 (t :: ts) = .ok true →
    Selector.Groups.split ending.inSelector 0 false (t :: ts) = .ok g →
    g.selectors = .ok selectors → R selectors
  declaration : ∀ {t : Token} {ts : List Token}, t :: ts <:+ tokens →
    startsRule ending 0 (t :: ts) = .ok false → D (Declaration.readDeclaration t ts).1
  unterminated : ∀ {t : Token} {ts : List Token}, t :: ts <:+ tokens →
    D (Declaration.readUnterminated t ts).1
  atRule : ∀ {sign name brace : Token} {ts rest : List Token},
    sign :: name :: ts <:+ tokens → name.kind = .ident → ts.dropWhile inCondition = brace :: rest →
    brace.isMark '\x7b' = true →
    A { kind := .ofName name.text
        name := name.text
        condition := Fragment.ofTokens (ts.takeWhile inCondition)
        location := some (sign.span brace) }

/-- A property of items that follows from those of the pieces. -/
structure Builds (R : List Selector → Prop) (D : Declaration → Prop) (A : AtRule → Prop)
    (I : Item → Prop) : Prop where
  declaration : ∀ {d : Declaration}, D d → I (.declaration d)
  close : ∀ {head : Head} {items : List Item}, head.All R A → (∀ i ∈ items, I i) →
    I (.content (head.close items))

/-- All items that were read so far are as said, in the open blocks too, and so are the heads of
these; the remaining tokens are from the end of `tokens`. -/
structure State.Each (tokens : List Token) (H : Head → Prop) (I : Item → Prop) (s : State) :
    Prop where
  suffix : s.tokens <:+ tokens
  items : ∀ i ∈ s.items, I i
  blocks : ∀ b ∈ s.blocks, H b.head ∧ ∀ i ∈ b.before, I i

namespace State.Each

variable {ending : Ending} {tokens : List Token} {s s' : State} {I : Item → Prop}

theorem start {H : Head → Prop} : State.Each tokens H I { tokens := tokens } :=
  ⟨List.suffix_rfl, List.forall_mem_nil _, List.forall_mem_nil _⟩

theorem moves (hp : Pieces ending tokens R D A) (hb : Builds R D A I) (h : Moves ending s s')
    (hs : s.Each tokens (Head.All R A) I) : s'.Each tokens (Head.All R A) I := by
  have hsuffix := h.suffix.trans hs.suffix
  have hopen : ∀ {head : Head} {opening : Location} {rest : List Token}, head.All R A →
      rest <:+ tokens → (s.openBlock head opening rest).Each tokens (Head.All R A) I :=
    fun hh hrest =>
      ⟨hrest, List.forall_mem_nil _, List.forall_mem_cons.2 ⟨⟨hh, hs.items⟩, hs.blocks⟩⟩
  cases h with
  | close htokens hbrace hblocks =>
    have hall := hs.blocks
    rw [hblocks] at hall
    obtain ⟨⟨hhead, hbefore⟩, hrest⟩ := List.forall_mem_cons.1 hall
    have hclosed := hb.close hhead fun i hi => hs.items i (List.mem_reverse.1 hi)
    exact ⟨hsuffix, List.forall_mem_cons.2 ⟨hclosed, hbefore⟩, hrest⟩
  | skip => exact ⟨hsuffix, hs.items, hs.blocks⟩
  | atRule htokens _ hname hbody hbrace =>
    exact hopen (hp.atRule (htokens ▸ hs.suffix) hname.1 hbody hbrace) hsuffix
  | declaration htokens hends =>
    have hd := hb.declaration (hp.declaration (htokens ▸ hs.suffix) hends)
    exact ⟨hsuffix, List.forall_mem_cons.2 ⟨hd, hs.items⟩, hs.blocks⟩
  | unterminated htokens =>
    have hd := hb.declaration (hp.unterminated (htokens ▸ hs.suffix))
    exact ⟨hsuffix, List.forall_mem_cons.2 ⟨hd, hs.items⟩, hs.blocks⟩
  | rule htokens hopens _ hsplit hread hplain =>
    exact hopen (hp.rule (htokens ▸ hs.suffix) hplain hopens hsplit hread) hsuffix

end State.Each

/-- A sheet is made of items, and what follows from their pieces holds of each. -/
theorem exists_items_of_run {ending : Ending} {tokens : List Token} {sheet : Sheet}
    {I : Item → Prop} (hp : Pieces ending tokens R D A) (hb : Builds R D A I)
    (h : (run ending { tokens := tokens }).result = .ok sheet) :
    ∃ items : List Item, (∀ i ∈ items, I i) ∧ sheet = Item.contents [] items := by
  obtain ⟨last, hlast, -, -, -, rfl⟩ :=
    exists_of_run (fun _ _ => State.Each.moves hp hb) State.Each.start h
  exact ⟨_, fun i hi => hlast.items i (List.mem_reverse.1 hi), rfl⟩

/-- What holds of the pieces where they are read, and of an empty selector list, holds of the pieces
of the sheet. -/
theorem all_of_run {ending : Ending} {tokens : List Token} {sheet : Sheet} (hbare : R [])
    (hp : Pieces ending tokens R D A) (h : (run ending { tokens := tokens }).result = .ok sheet) :
    Sheet.All R D A sheet := by
  have hb : Builds R D A (Item.All R D A) := ⟨id, Head.all_close hbare⟩
  obtain ⟨items, hitems, rfl⟩ := exists_items_of_run hp hb h
  exact Item.all_contents hbare (List.forall_mem_nil _) hitems

end Sheet

end All

end ScopedCss
