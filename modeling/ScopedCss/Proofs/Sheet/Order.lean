/-
The order of a sheet in its source. Reading takes its items from the front of the tokens, so what
was read lies before what is still to come, also where a malformed declaration gave tokens back
(`State.Laid.moves`). The items of every block therefore follow one another, each with all that is
inside it, although a rule keeps its declarations and its nested items apart
(`Sheet.inOrder_of_parse`).
-/
import Mathlib.Data.List.Pairwise
import ScopedCss.Proofs.Sheet.Pieces
import ScopedCss.Proofs.Sheet.Places

namespace ScopedCss

/-! ### Places side by side -/

/-- One place ends before the other begins. -/
structure Location.Before (a b : Location) : Prop where
  start : a.start < b.start
  stop : a.stop ≤ b.start

/-- A place of at least one character between two offsets. -/
structure Location.Within (lo hi : Int) (l : Location) : Prop where
  start : lo ≤ l.start
  nonempty : l.start < l.stop
  stop : l.stop ≤ hi

theorem Location.Within.mono {lo lo' hi hi' : Int} {l : Location} (h : l.Within lo hi)
    (hlo : lo' ≤ lo) (hhi : hi ≤ hi') : l.Within lo' hi' :=
  ⟨Int.le_trans hlo h.start, h.nonempty, Int.le_trans h.stop hhi⟩

theorem Location.Within.before {lo mid hi : Int} {a b : Location} (ha : a.Within lo mid)
    (hb : b.Within mid hi) : a.Before b where
  start := by
    have hstop := ha.stop
    have hstart := hb.start
    have hnonempty := ha.nonempty
    omega
  stop := Int.le_trans ha.stop hb.start

/-! ### Items in order -/

/-- All that is in the first item ends before anything in the second begins. -/
def Item.Precedes (i j : Item) : Prop := j.Placed fun l => i.Placed (·.Before l)

theorem Item.precedes_of_within {lo mid hi : Int} {i j : Item}
    (hfirst : i.Placed (Location.Within lo mid)) (hsecond : j.Placed (Location.Within mid hi)) :
    i.Precedes j :=
  hsecond.mono fun _ hl => hfirst.mono fun _ hp => hp.before hl

/-- Nothing of a declaration lies before its start. -/
def Declaration.Starts (d : Declaration) : Prop :=
  Location.Given (fun l => d.Placed (l.start ≤ ·.start)) d.location

mutual

def Content.InOrder : Content → Prop
  | .rule selectors declarations nested location =>
    declarations.Pairwise (fun d e => (Item.declaration d).Precedes (.declaration e)) ∧
      nested.Pairwise (fun c d => (Item.content c).Precedes (.content d)) ∧
      (∀ d ∈ declarations, ∀ c ∈ nested, (Item.declaration d).Precedes (.content c) ∨
        (Item.content c).Precedes (.declaration d)) ∧
      Location.Given
        (fun l => (Content.rule selectors declarations nested location).Placed (l.start ≤ ·.start))
        location ∧
      Sheet.EachInOrder nested
  | .atRule head body =>
    body.Pairwise (fun c d => (Item.content c).Precedes (.content d)) ∧
      Location.Given (fun l => (Content.atRule head body).Placed (l.start ≤ ·.start))
        head.location ∧
      Sheet.EachInOrder body

def Sheet.EachInOrder : Sheet → Prop
  | [] => True
  | c :: cs => c.InOrder ∧ Sheet.EachInOrder cs

end

/-- The items of a sheet follow one another, each with all that is in it, and so do those in every
item, none of which lies before its start. The declarations of a rule and what is nested in it each
come in order, and every two of them lie apart. -/
def Sheet.InOrder (s : Sheet) : Prop :=
  s.Pairwise (fun c d => (Item.content c).Precedes (.content d)) ∧ Sheet.EachInOrder s

theorem Sheet.eachInOrder_iff {s : Sheet} : Sheet.EachInOrder s ↔ ∀ c ∈ s, c.InOrder := by
  induction s with
  | nil => simp [Sheet.EachInOrder]
  | cons c s ih => simp [Sheet.EachInOrder, ih]

namespace Item

def InOrder : Item → Prop
  | declaration d => d.Starts
  | content c => c.InOrder

/-- Items that lie one behind the other between two offsets. -/
inductive Laid (hi : Int) : Int → List Item → Prop
  | nil {lo : Int} (ordered : lo ≤ hi) : Laid hi lo []
  | cons {lo mid : Int} {i : Item} {items : List Item} (ordered : lo ≤ mid)
      (within : i.Placed (Location.Within lo mid)) (inOrder : i.InOrder)
      (rest : Laid hi mid items) : Laid hi lo (i :: items)

namespace Laid

variable {lo mid hi : Int} {i : Item} {items others : List Item}

theorem le (h : Laid hi lo items) : lo ≤ hi := by
  induction h with
  | nil ordered => exact ordered
  | cons ordered _ _ _ ih => exact Int.le_trans ordered ih

theorem append (h : Laid mid lo items) (h' : Laid hi mid others) :
    Laid hi lo (items ++ others) := by
  induction h with
  | nil ordered =>
    cases h' with
    | nil ordered' => exact .nil (Int.le_trans ordered ordered')
    | cons ordered' within inOrder rest =>
      exact .cons (Int.le_trans ordered ordered')
        (within.mono fun _ hl => hl.mono ordered (Int.le_refl _)) inOrder rest
  | cons ordered within inOrder _ ih => exact .cons ordered within inOrder ih

theorem single (hle : lo ≤ hi) (hwithin : i.Placed (Location.Within lo hi)) (h : i.InOrder) :
    Laid hi lo [i] :=
  .cons hle hwithin h (.nil (Int.le_refl _))

theorem within (h : Laid hi lo items) : ∀ i ∈ items, i.Placed (Location.Within lo hi) := by
  induction h with
  | nil => exact List.forall_mem_nil _
  | cons ordered within _ rest ih =>
    refine List.forall_mem_cons.2 ⟨within.mono fun _ hl => hl.mono (Int.le_refl _) rest.le, ?_⟩
    exact fun j hj => (ih j hj).mono fun _ hl => hl.mono ordered (Int.le_refl _)

theorem each (h : Laid hi lo items) : ∀ i ∈ items, i.InOrder := by
  induction h with
  | nil => exact List.forall_mem_nil _
  | cons _ _ inOrder _ ih => exact List.forall_mem_cons.2 ⟨inOrder, ih⟩

theorem pairwise (h : Laid hi lo items) : items.Pairwise Precedes := by
  induction h with
  | nil => exact .nil
  | cons _ within _ rest ih =>
    exact .cons (fun j hj => precedes_of_within within (rest.within j hj)) ih

end Laid

theorem laid_bareRule {lo hi : Int} {ds : List Declaration} (h : Laid hi lo (ds.map declaration)) :
    Laid hi lo ((bareRule ds).map content) := by
  cases ds with
  | nil => exact .nil h.le
  | cons d ds =>
    have hwithin : ∀ e ∈ d :: ds, e.Placed (Location.Within lo hi) := fun e he =>
      h.within _ (List.mem_map_of_mem he)
    have hpairs := List.pairwise_map.1 h.pairwise
    obtain ⟨l, hl, hd⟩ : d.Starts := h.each _ List.mem_cons_self
    -- the first declaration gives the rule its place, and the others come behind it
    have hlater : ∀ e ∈ ds, e.Placed (l.start ≤ ·.start) := by
      intro e he
      refine ((List.pairwise_cons.1 hpairs).1 e he).mono fun m hm => ?_
      obtain ⟨l', hl', hbefore⟩ := Declaration.Placed.location hm
      cases hl.symm.trans hl'
      exact Int.le_of_lt hbefore.start
    refine .single h.le (placed_bareRule hwithin _ List.mem_cons_self) ?_
    refine ⟨hpairs, .nil, fun _ _ => List.forall_mem_nil _, ⟨l, hl, ?_⟩, trivial⟩
    have hall : ∀ e ∈ d :: ds, e.Placed (l.start ≤ ·.start) := List.forall_mem_cons.2 ⟨hd, hlater⟩
    exact ⟨List.forall_mem_nil _, hall, trivial, l, hl, Int.le_refl _⟩

theorem laid_no_declarations (lo : Int) :
    Laid lo lo (([] : List Declaration).reverse.map declaration) :=
  .nil (Int.le_refl lo)

/-- Grouping bare declarations leaves everything where it is. -/
theorem laid_contents {lo mid hi : Int} {run : List Declaration} {items : List Item}
    (hrun : Laid mid lo (run.reverse.map declaration)) (h : Laid hi mid items) :
    Laid hi lo ((contents run items).map content) := by
  induction items generalizing run lo mid with
  | nil =>
    have hbare := (laid_bareRule hrun).append h
    rwa [List.append_nil] at hbare
  | cons i items ih =>
    cases h with
    | @cons _ next _ _ ordered within inOrder rest =>
      cases i with
      | declaration d =>
        refine ih ?_ rest
        rw [List.reverse_cons, List.map_append]
        exact hrun.append (.single ordered within inOrder)
      | content c =>
        have hlater := ih (laid_no_declarations next) rest
        rw [contents, List.map_append]
        exact (laid_bareRule hrun).append (.cons ordered within inOrder hlater)

theorem inOrder_of_laid {lo hi : Int} {s : Sheet} (h : Laid hi lo (s.map content)) :
    s.InOrder :=
  ⟨List.pairwise_map.1 h.pairwise,
    Sheet.eachInOrder_iff.2 fun _ hc => h.each _ (List.mem_map_of_mem hc)⟩

theorem declaration?_eq_some {i : Item} {d : Declaration} (h : i.declaration? = some d) :
    i = declaration d := by
  cases i with
  | declaration e =>
    cases h
    rfl
  | content c => cases h

theorem content?_eq_some {i : Item} {c : Content} (h : i.content? = some c) : i = content c := by
  cases i with
  | declaration e => cases h
  | content d =>
    cases h
    rfl

/-- Every two items lie one behind the other. -/
theorem precedes_or_precedes {items : List Item} (h : items.Pairwise Precedes) {i j : Item}
    (hi : i ∈ items) (hj : j ∈ items) (hne : i ≠ j) : i.Precedes j ∨ j.Precedes i := by
  have hsymm : Std.Symm fun i j : Item => i.Precedes j ∨ j.Precedes i := ⟨fun _ _ => Or.symm⟩
  have heither : items.Pairwise fun i j => i.Precedes j ∨ j.Precedes i := h.imp Or.inl
  exact heither.forall hi hj hne

end Item

namespace Sheet

/-- Where a head stands. -/
def Head.place : Head → Option Location
  | rule _ location => some location
  | atRule head => head.location

theorem Head.inOrder_close {hi : Int} {head : Head} {l : Location} {items : List Item}
    (hplace : head.place = some l) (hhead : head.Placed (Location.Within l.start hi))
    (h : Item.Laid hi l.start items) : (head.close items).InOrder := by
  have hclose : (head.close items).Placed (l.start ≤ ·.start) :=
    (placed_close hhead h.within).mono fun _ hp => hp.start
  cases head with
  | atRule a =>
    obtain ⟨hpairs, heach⟩ :=
      Item.inOrder_of_laid (Item.laid_contents (Item.laid_no_declarations _) h)
    exact ⟨hpairs, ⟨l, hplace, hclose⟩, heach⟩
  | rule selectors location =>
    cases hplace
    refine ⟨List.pairwise_filterMap.2 (h.pairwise.imp ?_),
      List.pairwise_filterMap.2 (h.pairwise.imp ?_), ?_, ⟨l, rfl, hclose⟩,
      eachInOrder_iff.2 ?_⟩
    · intro i j hij d hd e he
      rwa [Item.declaration?_eq_some hd, Item.declaration?_eq_some he] at hij
    · intro i j hij c hc d hd
      rwa [Item.content?_eq_some hc, Item.content?_eq_some hd] at hij
    · intro d hd c hc
      obtain ⟨i, hi, hdeclaration⟩ := List.mem_filterMap.1 hd
      obtain ⟨j, hj, hcontent⟩ := List.mem_filterMap.1 hc
      rw [Item.declaration?_eq_some hdeclaration] at hi
      rw [Item.content?_eq_some hcontent] at hj
      exact Item.precedes_or_precedes h.pairwise hi hj (by rintro ⟨⟩)
    · intro c hc
      obtain ⟨j, hj, hcontent⟩ := List.mem_filterMap.1 hc
      rw [Item.content?_eq_some hcontent] at hj
      exact h.each _ hj

end Sheet

/-! ### Tokens in order -/

/-- Tokens that follow one another from an offset on. -/
structure Token.Follow (lo : Int) (ts : List Token) : Prop where
  within : ∀ t ∈ ts, lo ≤ t.location.start ∧ t.location.start < t.location.stop
  pairwise : ts.Pairwise fun a b => a.location.stop ≤ b.location.start

namespace Token.Follow

variable {lo : Int} {t : Token} {ts us : List Token}

theorem suffix (h : Follow lo ts) (hus : us <:+ ts) : Follow lo us :=
  ⟨fun t ht => h.within t (hus.subset ht), h.pairwise.sublist hus.sublist⟩

/-- Tokens also follow from where the first one starts. -/
theorem fromFirst (h : Follow lo (t :: ts)) : Follow t.location.start (t :: ts) := by
  have hfirst := h.within t List.mem_cons_self
  refine ⟨List.forall_mem_cons.2 ⟨⟨Int.le_refl _, hfirst.2⟩, ?_⟩, h.pairwise⟩
  intro u hu
  have hlater := h.within u (List.mem_cons_of_mem t hu)
  have hpair := (List.pairwise_cons.1 h.pairwise).1 u hu
  omega

/-- Where some tokens end, all of them lie before and the others follow. -/
theorem split (h : Follow lo (us ++ ts)) (hne : us ≠ []) :
    ∃ hi, lo ≤ hi ∧ Token.Spanning (Location.Within lo hi) us ∧ Follow hi ts := by
  obtain ⟨front, last, rfl⟩ := (List.eq_nil_or_concat' us).resolve_left hne
  obtain ⟨hus, hts, hcross⟩ := List.pairwise_append.1 h.pairwise
  have hlast := h.within last (by simp)
  have hstop : ∀ u ∈ front ++ [last], u.location.stop ≤ last.location.stop := by
    intro u hu
    rcases List.mem_append.1 hu with hu | hu
    · have hpair := (List.pairwise_append.1 hus).2.2 u hu last (List.mem_singleton_self last)
      omega
    · cases List.mem_singleton.1 hu
      exact Int.le_refl _
  have hwithin : ∀ u ∈ front ++ [last], u.location.Within lo last.location.stop := by
    intro u hu
    obtain ⟨hstart, hnonempty⟩ := h.within u (List.mem_append_left _ hu)
    exact ⟨hstart, hnonempty, hstop u hu⟩
  refine ⟨last.location.stop, by omega, ⟨hwithin, hus.imp_of_mem ?_⟩, ?_⟩
  · intro a b ha hb hab
    have hfirst := hwithin a ha
    have hsecond := hwithin b hb
    refine ⟨hfirst.start, ?_, hsecond.stop⟩
    exact Int.lt_of_lt_of_le hfirst.nonempty (Int.le_trans hab (Int.le_of_lt hsecond.nonempty))
  · refine ⟨fun u hu => ⟨hcross last (by simp) u hu, ?_⟩, hts⟩
    exact (h.within u (List.mem_append_right _ hu)).2

end Token.Follow

/-! ### What a declaration is made of -/

namespace Declaration

/-- A declaration that was made of a key and the tokens after it, well formed or not. -/
inductive MadeOf (key : Token) (body : List Token) : Declaration → Prop
  | dangling (reason : Text) : MadeOf key body (dangle key body reason)
  | sound : MadeOf key body (ofTokens key body)

/-- The key of a declaration is a token, and there it starts. -/
structure StartsAt (t : Token) (d : Declaration) : Prop where
  key : d.key = if d.isDangling then .literal t.text else Fragment.ofToken t
  location : ∃ l, d.location = some l ∧ l.start = t.location.start ∧ l.line = t.location.line ∧
    l.column = t.location.column

variable {key : Token} {body : List Token} {d : Declaration}

theorem MadeOf.placed {P : Location → Prop} (h : MadeOf key body d)
    (hspan : Token.Spanning P (key :: body)) : d.Placed P := by
  cases h with
  | dangling reason => exact placed_dangle hspan reason
  | sound => exact placed_ofTokens hspan

theorem MadeOf.location (h : MadeOf key body d) : d.location = some (placeOf key body) := by
  cases h with
  | dangling reason => rfl
  | sound =>
    unfold ofTokens
    split
    · rfl
    split
    · rfl
    · split
      · rfl
      split <;> rfl

theorem MadeOf.startsAt (h : MadeOf key body d) : d.StartsAt key where
  key := by
    cases h with
    | dangling reason => rfl
    | sound =>
      unfold ofTokens
      split
      · rfl
      split
      · rfl
      · split
        · rfl
        split <;> rfl
  location := ⟨_, h.location, rfl, rfl, rfl⟩

/-- Nothing of a declaration lies before its key. -/
theorem MadeOf.starts {lo hi : Int} (h : MadeOf key body d)
    (hspan : Token.Spanning (Location.Within lo hi) (key :: body))
    (hkey : key.location.start = lo) : d.Starts := by
  refine ⟨_, h.location, (h.placed hspan).mono fun p hp => ?_⟩
  have hstart : (placeOf key body).start = key.location.start := rfl
  rw [hstart, hkey]
  exact hp.start

/-- Reading a declaration divides the tokens: those it is made of, and those that are given back,
less the `;` it may end with. -/
theorem readDeclaration_own (key : Token) (ts : List Token) :
    ∃ body left, ts = body ++ left ∧ MadeOf key body (readDeclaration key ts).1 ∧
      ((readDeclaration key ts).2 = left ∨ (readDeclaration key ts).2 = dropSemicolon left) := by
  simp only [readDeclaration]
  split
  · rename_i n _
    refine ⟨(ts.takeWhile (!·.isTerminator)).take n, _, ?_, .dangling _, .inl rfl⟩
    rw [← List.append_assoc, List.take_append_drop, List.takeWhile_append_dropWhile]
  · exact ⟨_, _, List.takeWhile_append_dropWhile.symm, .sound, .inr rfl⟩

theorem readUnterminated_own (key : Token) (ts : List Token) :
    ∃ body left, ts = body ++ left ∧ MadeOf key body (readUnterminated key ts).1 ∧
      (readUnterminated key ts).2 = left :=
  ⟨_, _, (List.take_append_drop _ ts).symm, .dangling _, rfl⟩

end Declaration

/-! ### Reading keeps the order -/

namespace Sheet

/-- The items read so far in the innermost block and in those around it lie before an offset, each
block behind what was read before it. -/
inductive Stacked : Int → List Item → List Block → Prop
  | bottom {hi : Int} {items : List Item} (laid : Item.Laid hi 0 items.reverse) :
      Stacked hi items []
  | block {mid hi : Int} {items : List Item} {b : Block} {blocks : List Block} {l : Location}
      (around : Stacked mid b.before blocks) (place : b.head.place = some l)
      (after : mid ≤ l.start) (head : b.head.Placed (Location.Within l.start hi))
      (laid : Item.Laid hi l.start items.reverse) : Stacked hi items (b :: blocks)

namespace Stacked

variable {mid hi : Int} {items : List Item} {blocks : List Block}

theorem mono (h : Stacked mid items blocks) (hle : mid ≤ hi) : Stacked hi items blocks := by
  have hlaid : ∀ {lo : Int}, Item.Laid mid lo items.reverse → Item.Laid hi lo items.reverse := by
    intro lo hl
    have happend := hl.append (.nil hle)
    rwa [List.append_nil] at happend
  cases h with
  | bottom laid => exact .bottom (hlaid laid)
  | block around place after head laid =>
    exact .block around place after (head.mono fun _ hp => hp.mono (Int.le_refl _) hle) (hlaid laid)

theorem push (h : Stacked mid items blocks) (hle : mid ≤ hi) {i : Item}
    (hwithin : i.Placed (Location.Within mid hi)) (hinOrder : i.InOrder) :
    Stacked hi (i :: items) blocks := by
  have hlaid : ∀ {lo : Int}, Item.Laid mid lo items.reverse →
      Item.Laid hi lo (i :: items).reverse := by
    intro lo hl
    rw [List.reverse_cons]
    exact hl.append (.single hle hwithin hinOrder)
  cases h with
  | bottom laid => exact .bottom (hlaid laid)
  | block around place after head laid =>
    exact .block around place after (head.mono fun _ hp => hp.mono (Int.le_refl _) hle) (hlaid laid)

/-- A closed block is one more item of the block around it. -/
theorem close {b : Block} (h : Stacked hi items (b :: blocks)) :
    Stacked hi (.content (b.head.close items.reverse) :: b.before) blocks := by
  cases h with
  | block around place after head laid =>
    have hinOrder := Head.inOrder_close place head laid
    have hclose := Content.Placed.mono (fun _ hp => hp.mono after (Int.le_refl _))
      (Head.placed_close head laid.within)
    exact around.push (i := .content _) (Int.le_trans after laid.le) hclose hinOrder

end Stacked

/-- All that was read so far lies before an offset, in order, and the tokens to come follow from
there. -/
def State.Laid (s : State) : Prop :=
  ∃ hi, Stacked hi s.items s.blocks ∧ Token.Follow hi s.tokens

namespace State.Laid

variable {s s' : State}

theorem openBlock {mid : Int} (hs : Stacked mid s.items s.blocks) {own rest : List Token}
    {t : Token} (hfollow : Token.Follow mid (t :: own ++ rest)) {head : Head} {l : Location}
    (hplace : head.place = some l) (hstart : l.start = t.location.start)
    (hhead : ∀ P : Location → Prop, Token.Spanning P (t :: own) → head.Placed P)
    (opening : Location) : (s.openBlock head opening rest).Laid := by
  obtain ⟨hi, hle, hspan, hrest⟩ := hfollow.fromFirst.split (List.cons_ne_nil t own)
  have hmid := (hfollow.within t List.mem_cons_self).1
  rw [← hstart] at hle hspan hmid
  exact ⟨hi, .block hs hplace hmid (hhead _ hspan) (.nil hle), hrest⟩

theorem addDeclaration {mid : Int} (hs : Stacked mid s.items s.blocks) {key : Token}
    {body left : List Token} (hfollow : Token.Follow mid (key :: body ++ left))
    {read : Declaration × List Token} (hmade : Declaration.MadeOf key body read.1)
    (hrest : read.2 <:+ left) : (s.addDeclaration read).Laid := by
  obtain ⟨hi, hle, hspan, hleft⟩ := hfollow.fromFirst.split (List.cons_ne_nil key body)
  have hmid := (hfollow.within key List.mem_cons_self).1
  have hpush := (hs.mono hmid).push hle (i := .declaration read.1) (hmade.placed hspan)
    (hmade.starts hspan rfl)
  exact ⟨hi, hpush, hleft.suffix hrest⟩

theorem moves {ending : Ending} (h : Moves ending s s') (hs : s.Laid) : s'.Laid := by
  obtain ⟨mid, hstacked, hfollow⟩ := hs
  have hsuffix := hfollow.suffix h.suffix
  cases h with
  | close htokens hbrace hblocks =>
    rw [hblocks] at hstacked
    exact ⟨mid, hstacked.close, hsuffix⟩
  | skip => exact ⟨mid, hstacked, hsuffix⟩
  | @atRule sign name brace ts rest htokens _ _ hbody =>
    have hts : ts = ts.takeWhile inCondition ++ brace :: rest := by
      rw [← hbody, List.takeWhile_append_dropWhile]
    have hown : s.tokens = sign :: (name :: ts.takeWhile inCondition ++ [brace]) ++ rest := by
      rw [htokens]
      simpa using hts
    rw [hown] at hfollow
    refine openBlock hstacked hfollow (l := sign.span brace) rfl rfl (fun P hspan => ?_) _
    refine AtRule.Placed.mk ?_ ⟨_, rfl, ?_⟩
    · exact Fragment.placed_ofTokens fun t ht => hspan.each t (by simp [ht])
    · exact (List.pairwise_cons.1 hspan.spans).1 brace (by simp)
  | @declaration t ts htokens =>
    obtain ⟨body, left, hts, hmade, hrest⟩ := Declaration.readDeclaration_own t ts
    rw [htokens, hts] at hfollow
    refine addDeclaration hstacked hfollow hmade ?_
    rcases hrest with hrest | hrest
    · rw [hrest]
    · rw [hrest]
      exact Declaration.dropSemicolon_suffix left
  | @unterminated t ts htokens =>
    obtain ⟨body, left, hts, hmade, hrest⟩ := Declaration.readUnterminated_own t ts
    rw [htokens, hts] at hfollow
    exact addDeclaration hstacked hfollow hmade (hrest ▸ List.suffix_rfl)
  | @rule t ts g selectors htokens _ _ hsplit hread =>
    obtain ⟨-, front, hfront, hsub⟩ := Selector.Groups.split_spec hsplit
    obtain ⟨own, hown⟩ : ∃ own, front ++ [g.brace] = t :: own := by
      cases front with
      | nil => exact ⟨[], by rw [List.nil_append, (List.cons.inj hfront).1]⟩
      | cons u front => exact ⟨front ++ [g.brace], by rw [(List.cons.inj hfront).1]; rfl⟩
    have htokens' : s.tokens = t :: own ++ g.rest := by
      rw [htokens, hfront, ← hown]
      simp
    rw [htokens'] at hfollow
    refine openBlock hstacked hfollow (l := t.location) rfl rfl (fun P hspan => ?_) _
    refine And.intro ?_ ?_
    · refine Selector.Groups.placed_selectors (fun u hu => hspan.each u ?_) hread
      rw [← hown]
      exact List.mem_append_left _ (hsub.subset hu)
    · exact hspan.each t List.mem_cons_self

end State.Laid

/-- The tokens of a source follow one another. -/
theorem follow_tokenize (source : Text) : Token.Follow 0 (Text.tokenize source).tokens := by
  obtain ⟨stop, -, htiled⟩ := Text.tiled_tokenize source
  obtain ⟨hstarts, hpairs⟩ := htiled.pairwise
  refine ⟨fun t ht => ⟨hstarts t ht, ?_⟩, hpairs⟩
  exact ((Text.spanning_tokenize source).each t ht).nonempty

end Sheet

/-! ### All declarations of a sheet -/

mutual

def Content.declarations : Content → List Declaration
  | .rule _ declarations nested _ => declarations ++ Sheet.declarations nested
  | .atRule _ body => Sheet.declarations body

/-- The declarations of a sheet at every depth, malformed ones too; those of a rule stand before
those nested in it. -/
def Sheet.declarations : Sheet → List Declaration
  | [] => []
  | c :: cs => c.declarations ++ Sheet.declarations cs

end

section Declarations

variable {P : Location → Prop} {R : List Selector → Prop} {D : Declaration → Prop}
  {A : AtRule → Prop}

mutual

theorem Content.all_declarations : ∀ {c : Content}, c.All R D A → ∀ d ∈ c.declarations, D d
  | .rule .., ⟨_, hdeclarations, hnested⟩ =>
    List.forall_mem_append.2 ⟨hdeclarations, Sheet.all_declarations hnested⟩
  | .atRule .., ⟨_, hbody⟩ => Sheet.all_declarations hbody

theorem Sheet.all_declarations : ∀ {s : Sheet}, Sheet.All R D A s → ∀ d ∈ s.declarations, D d
  | [], _ => List.forall_mem_nil _
  | _ :: _, ⟨hc, hcs⟩ =>
    List.forall_mem_append.2 ⟨Content.all_declarations hc, Sheet.all_declarations hcs⟩

end

mutual

theorem Content.placed_declarations : ∀ {c : Content}, c.Placed P →
    ∀ d ∈ c.declarations, d.Placed P
  | .rule .., ⟨_, hdeclarations, hnested, _⟩ =>
    List.forall_mem_append.2 ⟨hdeclarations, Sheet.placed_declarations hnested⟩
  | .atRule .., ⟨_, hbody⟩ => Sheet.placed_declarations hbody

theorem Sheet.placed_declarations : ∀ {s : Sheet}, Sheet.Placed P s →
    ∀ d ∈ s.declarations, d.Placed P
  | [], _ => List.forall_mem_nil _
  | _ :: _, ⟨hc, hcs⟩ =>
    List.forall_mem_append.2 ⟨Content.placed_declarations hc, Sheet.placed_declarations hcs⟩

end

theorem Sheet.mem_declarations {s : Sheet} {d : Declaration} (h : d ∈ s.declarations) :
    ∃ c ∈ s, d ∈ c.declarations := by
  induction s with
  | nil => cases h
  | cons c s ih =>
    rcases List.mem_append.1 h with h | h
    · exact ⟨c, List.mem_cons_self, h⟩
    · obtain ⟨c', hc', hd⟩ := ih h
      exact ⟨c', List.mem_cons_of_mem c hc', hd⟩

mutual

theorem Content.dangling_eq : ∀ c : Content, c.dangling = c.declarations.filter (·.isDangling)
  | .rule _ declarations nested _ => by
    rw [Content.dangling, Content.declarations, List.filter_append, Sheet.dangling_eq nested]
  | .atRule _ body => Sheet.dangling_eq body

theorem Sheet.dangling_eq : ∀ s : Sheet, s.dangling = s.declarations.filter (·.isDangling)
  | [] => rfl
  | c :: cs => by
    rw [Sheet.dangling, Sheet.declarations, List.filter_append, Content.dangling_eq c,
      Sheet.dangling_eq cs]

end

end Declarations

/-- The spans of two declarations do not overlap. -/
def Declaration.Apart (d e : Declaration) : Prop :=
  ∃ l m, d.location = some l ∧ e.location = some m ∧ (l.Before m ∨ m.Before l)

theorem Declaration.Apart.symm {d e : Declaration} (h : d.Apart e) : e.Apart d := by
  obtain ⟨l, m, hd, he, hbefore⟩ := h
  exact ⟨m, l, he, hd, hbefore.symm⟩

theorem Declaration.Apart.start_ne {d e : Declaration} (h : d.Apart e) : d.start ≠ e.start := by
  obtain ⟨l, m, hd, he, hbefore⟩ := h
  simp only [Declaration.start, hd, he, Option.map_some, Option.getD_some]
  rcases hbefore with hbefore | hbefore
  · exact Int.ne_of_lt hbefore.start
  · exact (Int.ne_of_lt hbefore.start).symm

def Item.declarations : Item → List Declaration
  | declaration d => [d]
  | content c => c.declarations

theorem Item.placed_declarations {P : Location → Prop} {i : Item} (h : i.Placed P) :
    ∀ d ∈ i.declarations, d.Placed P := by
  cases i with
  | declaration d => exact List.forall_mem_singleton.2 h
  | content c => exact Content.placed_declarations h

theorem Item.Precedes.apart {i j : Item} (h : i.Precedes j) {d e : Declaration}
    (hd : d ∈ i.declarations) (he : e ∈ j.declarations) : d.Apart e := by
  obtain ⟨m, hm, hi⟩ := (Item.placed_declarations h e he).location
  obtain ⟨l, hl, hbefore⟩ := (Item.placed_declarations hi d hd).location
  exact ⟨l, m, hl, hm, .inl hbefore⟩

mutual

theorem Content.apart_declarations : ∀ {c : Content}, c.InOrder →
    c.declarations.Pairwise Declaration.Apart
  | .rule _ declarations nested _, ⟨hdeclarations, hnested, hcross, _, heach⟩ => by
    refine List.pairwise_append.2
      ⟨hdeclarations.imp ?_, Sheet.apart_declarations ⟨hnested, heach⟩, ?_⟩
    · intro d e hde
      exact hde.apart List.mem_cons_self List.mem_cons_self
    · intro d hd e he
      obtain ⟨c, hc, hec⟩ := Sheet.mem_declarations he
      rcases hcross d hd c hc with hbefore | hafter
      · exact hbefore.apart List.mem_cons_self hec
      · exact (hafter.apart hec List.mem_cons_self).symm
  | .atRule _ body, ⟨hbody, _, heach⟩ => Sheet.apart_declarations ⟨hbody, heach⟩

/-- No two declarations of a sheet in order overlap. -/
theorem Sheet.apart_declarations : ∀ {s : Sheet}, s.InOrder →
    s.declarations.Pairwise Declaration.Apart
  | [], _ => .nil
  | c :: cs, ⟨hpairs, hc, hcs⟩ => by
    obtain ⟨hfirst, hothers⟩ := List.pairwise_cons.1 hpairs
    refine List.pairwise_append.2
      ⟨Content.apart_declarations hc, Sheet.apart_declarations ⟨hothers, hcs⟩, ?_⟩
    intro d hd e he
    obtain ⟨c', hc', hec⟩ := Sheet.mem_declarations he
    exact (hfirst c' hc').apart hd hec

end

/-- Declarations that lie apart come out in the order of their starts. -/
theorem Sheet.pairwise_danglingInOrder {s : Sheet}
    (h : s.declarations.Pairwise Declaration.Apart) :
    s.danglingInOrder.Pairwise fun d e => d.start < e.start := by
  have hne : s.danglingInOrder.Pairwise fun d e => d.start ≠ e.start := by
    have hperm : s.danglingInOrder.Perm s.dangling := List.mergeSort_perm _ _
    rw [hperm.pairwise_iff fun h => h.symm, Sheet.dangling_eq]
    exact (h.filter _).imp Declaration.Apart.start_ne
  have hle : s.danglingInOrder.Pairwise fun d e => decide (d.start ≤ e.start) = true := by
    refine List.pairwise_mergeSort ?_ ?_ _
    · intro a b c hab hbc
      simp only [decide_eq_true_eq] at hab hbc ⊢
      exact Int.le_trans hab hbc
    · intro a b
      simp only [Bool.or_eq_true, decide_eq_true_eq]
      exact Int.le_total a.start b.start
  refine (hle.and hne).imp fun hde => ?_
  have hstart := of_decide_eq_true hde.1
  exact Int.lt_iff_le_and_ne.2 ⟨hstart, hde.2⟩

/-- Every declaration that is read starts at its key. -/
theorem Sheet.startsAt_of_parse {source : Text} {sheet : Sheet}
    (h : Sheet.parse source = .ok sheet) :
    ∀ d ∈ sheet.declarations, ∃ t ∈ (Text.tokenize source).tokens, d.StartsAt t := by
  have hp : Pieces (.ofSource source (Text.tokenize source).failure) (Text.tokenize source).tokens
      (fun _ => True) (fun d => ∃ t ∈ (Text.tokenize source).tokens, d.StartsAt t)
      fun _ => True := by
    refine ⟨fun _ _ _ _ _ => trivial, ?_, ?_, fun _ _ _ _ => trivial⟩
    · intro t ts hsuffix _
      obtain ⟨body, left, -, hmade, -⟩ := Declaration.readDeclaration_own t ts
      exact ⟨t, hsuffix.subset List.mem_cons_self, hmade.startsAt⟩
    · intro t ts hsuffix
      obtain ⟨body, left, -, hmade, -⟩ := Declaration.readUnterminated_own t ts
      exact ⟨t, hsuffix.subset List.mem_cons_self, hmade.startsAt⟩
  exact Sheet.all_declarations (all_of_run trivial hp h)

theorem Sheet.inOrder_of_run {source : Text} {sheet : Sheet}
    (h : Sheet.parse source = .ok sheet) : sheet.InOrder := by
  obtain ⟨last, ⟨hi, hstacked, -⟩, -, hblocks, -, rfl⟩ := exists_of_run
    (fun _ _ => State.Laid.moves) ⟨0, .bottom (.nil (Int.le_refl 0)), follow_tokenize source⟩ h
  rw [hblocks] at hstacked
  cases hstacked with
  | bottom laid =>
    exact Item.inOrder_of_laid (Item.laid_contents (Item.laid_no_declarations 0) laid)

/-- **A sheet keeps the order of its source.** In every sheet that was read, each declaration, well
formed or malformed, starts at the token that is its key, and no two of them overlap; at every depth
the items of a list follow one another, each with all that is inside it, and nothing inside an item
lies before its start; and the malformed declarations of the whole sheet come out once each, by
increasing starts. -/
theorem Sheet.inOrder_of_parse {source : Text} {sheet : Sheet}
    (h : Sheet.parse source = .ok sheet) :
    (∀ d ∈ sheet.declarations, ∃ t ∈ (Text.tokenize source).tokens, d.StartsAt t) ∧
      sheet.declarations.Pairwise Declaration.Apart ∧ sheet.InOrder ∧
      sheet.danglingInOrder.Perm (sheet.declarations.filter (·.isDangling)) ∧
      sheet.danglingInOrder.Pairwise fun d e => d.start < e.start := by
  have hinOrder := Sheet.inOrder_of_run h
  have hapart := Sheet.apart_declarations hinOrder
  refine ⟨Sheet.startsAt_of_parse h, hapart, hinOrder, ?_, Sheet.pairwise_danglingInOrder hapart⟩
  rw [← Sheet.dangling_eq]
  exact List.mergeSort_perm _ _

/-- Malformed declarations before, inside and behind nested items, one of them without its `;`
before a rule and one before the next property. -/
def wovenSource : Text :=
  "a b; c \x7b d; e: f g \x7b h \x7d i: j k: l \x7d @media m \x7b n: o; p \x7b : \x7d q \x7d".toList

/-- Those of the outer rule stand before the one nested between them, in the tree but not in the
source. -/
theorem inOrder_wovenSource : ∃ sheet, Sheet.parse wovenSource = .ok sheet ∧
    sheet.declarations.map (fun d => (d.key.text, d.isDangling, d.start)) =
      [(['a'], true, 0), (['d'], true, 9), (['e'], true, 12), (['i'], true, 25), (['k'], false, 30),
        (['h'], true, 21), (['n'], false, 48), ([':'], true, 58), (['q'], true, 62)] ∧
    sheet.danglingInOrder.Perm (sheet.declarations.filter (·.isDangling)) ∧
    sheet.danglingInOrder.Pairwise fun d e => d.start < e.start := by
  have hread : (fun sheet : Sheet =>
      sheet.declarations.map fun d => (d.key.text, d.isDangling, d.start)) <$>
        Sheet.parse wovenSource =
      .ok [(['a'], true, 0), (['d'], true, 9), (['e'], true, 12), (['i'], true, 25),
        (['k'], false, 30), (['h'], true, 21), (['n'], false, 48), ([':'], true, 58),
        (['q'], true, 62)] := by decide +kernel
  obtain ⟨sheet, hparse, hkeys⟩ := map_eq_ok.1 hread
  obtain ⟨-, -, -, hperm, hsorted⟩ := Sheet.inOrder_of_parse hparse
  exact ⟨sheet, hparse, hkeys.symm, hperm, hsorted⟩

end ScopedCss
