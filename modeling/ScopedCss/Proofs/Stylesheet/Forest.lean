/-
What a style sheet looks like in print: lines of declarations, and blocks of them with a line above.
Whether a block is a rule or an at-rule does not show, nor where one rule without selectors ends and
the next begins. `Stylesheet.forest` is what is left, and nothing of it is lost in the text
(`Stylesheet.print_eq_iff_forest_eq`).

Lines are told apart by their last character (`Printed.allLines_append_inj`), so heads and values
may hold braces, semicolons and blanks, and the indent may be any text on one line.
-/
import ScopedCss.Proofs.Stylesheet.Restoring

namespace ScopedCss

/-- A line, or a block with the line that heads it. -/
inductive Printed where
  | line (text : Text)
  | block (head : Text) (body : List Printed)

/-- The line of a declaration. -/
def Printed.ofDeclaration (d : Text × Text) : Printed := .line (d.1 ++ ": ".toList ++ d.2)

mutual

/-- A rule is a block under its selectors, or without them just its lines; an at-rule is a block
under its prelude. -/
def FlatItem.forest : FlatItem → List Printed
  | .rule [] declarations => declarations.map .ofDeclaration
  | .rule (s :: ss) declarations =>
    [.block (Text.join ", ".toList (s :: ss)) (declarations.map .ofDeclaration)]
  | .atRule prelude items => [.block prelude (Stylesheet.forest items)]

/-- The blocks and lines of a style sheet in order. -/
def Stylesheet.forest : Stylesheet → List Printed
  | [] => []
  | i :: is => i.forest ++ Stylesheet.forest is

end

mutual

/-- An item whose texts are each on one line. -/
def FlatItem.Unbroken : FlatItem → Prop
  | .rule selectors declarations =>
    (∀ s ∈ selectors, '\n' ∉ s) ∧ ∀ d ∈ declarations, '\n' ∉ d.1 ∧ '\n' ∉ d.2
  | .atRule prelude items => '\n' ∉ prelude ∧ Stylesheet.Unbroken items

/-- A style sheet whose texts are each on one line. -/
def Stylesheet.Unbroken : Stylesheet → Prop
  | [] => True
  | i :: is => i.Unbroken ∧ Stylesheet.Unbroken is

end

/-! ### The lines of a forest -/

mutual

def Printed.lines (indent : Text) (depth : Nat) : Printed → List Text
  | .line text => [Text.indentation indent depth ++ text ++ ";".toList]
  | .block head body =>
    let pad := Text.indentation indent depth
    FlatItem.headLine pad head :: (Printed.allLines indent (depth + 1) body ++
      [FlatItem.closeLine pad])

def Printed.allLines (indent : Text) (depth : Nat) : List Printed → List Text
  | [] => []
  | b :: bs => b.lines indent depth ++ Printed.allLines indent depth bs

end

namespace Printed

variable {indent : Text} {depth : Nat}

theorem allLines_append (bs bs' : List Printed) :
    allLines indent depth (bs ++ bs') = allLines indent depth bs ++ allLines indent depth bs' := by
  induction bs with
  | nil => rfl
  | cons b bs ih => simp only [List.cons_append, allLines, ih, List.append_assoc]

theorem allLines_singleton (b : Printed) : allLines indent depth [b] = b.lines indent depth :=
  List.append_nil _

theorem allLines_declarations (declarations : List (Text × Text)) :
    allLines indent depth (declarations.map .ofDeclaration) =
      declarations.map (FlatItem.declarationLine (Text.indentation indent depth)) := by
  induction declarations with
  | nil => rfl
  | cons d ds ih =>
    rw [List.map_cons, List.map_cons, allLines, ih]
    simp [ofDeclaration, lines, FlatItem.declarationLine]

end Printed

theorem Text.indentation_succ (indent : Text) (depth : Nat) :
    indentation indent (depth + 1) = indentation indent depth ++ indent := by
  simp [indentation, List.replicate_succ']

mutual

theorem FlatItem.allLines_forest (indent : Text) : ∀ (depth : Nat) (i : FlatItem),
    Printed.allLines indent depth i.forest = i.lines indent depth
  | depth, .rule [] declarations => Printed.allLines_declarations declarations
  | depth, .rule (s :: ss) declarations => by
    rw [FlatItem.forest, Printed.allLines_singleton, Printed.lines, Printed.allLines_declarations,
      Text.indentation_succ, FlatItem.lines, List.cons_append]
  | depth, .atRule prelude items => by
    rw [FlatItem.forest, Printed.allLines_singleton, Printed.lines,
      Stylesheet.allLines_forest indent (depth + 1) items, FlatItem.lines, List.cons_append]

/-- A style sheet has the lines of its forest. -/
theorem Stylesheet.allLines_forest (indent : Text) : ∀ (depth : Nat) (s : Stylesheet),
    Printed.allLines indent depth (Stylesheet.forest s) = Stylesheet.lines indent depth s
  | _, [] => rfl
  | depth, i :: is => by
    rw [Stylesheet.forest, Printed.allLines_append, FlatItem.allLines_forest indent depth i,
      Stylesheet.allLines_forest indent depth is, Stylesheet.lines]

end

/-! ### Reading a forest off its lines -/

theorem FlatItem.getLast?_headLine (pad head : Text) :
    (headLine pad head).getLast? = some '\x7b' := by
  simp [headLine]

theorem FlatItem.getLast?_closeLine (pad : Text) : (closeLine pad).getLast? = some '\x7d' :=
  List.getLast?_concat

/-- What can stand behind all of a block's lines: nothing, or the line that closes the block. -/
def Text.LeavesBlock (ls : List Text) : Prop := ∀ l ∈ ls.head?, l.getLast? = some '\x7d'

theorem Text.leavesBlock_close (pad : Text) (ls : List Text) :
    LeavesBlock (FlatItem.closeLine pad :: ls) :=
  fun _ hl => Option.some.inj hl ▸ FlatItem.getLast?_closeLine pad

namespace Printed

variable {indent : Text}

theorem allLines_line_append (depth : Nat) (text : Text) (bs : List Printed) (r : List Text) :
    allLines indent depth (.line text :: bs) ++ r =
      (Text.indentation indent depth ++ text ++ ";".toList) :: (allLines indent depth bs ++ r) :=
  rfl

theorem allLines_block_append (depth : Nat) (head : Text) (body bs : List Printed) (r : List Text) :
    allLines indent depth (.block head body :: bs) ++ r =
      FlatItem.headLine (Text.indentation indent depth) head ::
        (allLines indent (depth + 1) body ++
          FlatItem.closeLine (Text.indentation indent depth) ::
            (allLines indent depth bs ++ r)) := by
  simp [allLines, lines]

theorem not_leavesBlock (depth : Nat) (b : Printed) (bs : List Printed) (r : List Text) :
    ¬ Text.LeavesBlock (allLines indent depth (b :: bs) ++ r) := by
  intro h
  cases b with
  | line text =>
    have hlast := h _ rfl
    simp at hlast
  | block head body =>
    rw [allLines_block_append] at h
    have hlast := h _ rfl
    rw [FlatItem.getLast?_headLine] at hlast
    cases hlast

/-- Lines tell which blocks they are of, and where these end. -/
theorem allLines_append_inj (indent : Text) : ∀ (depth : Nat) (f g : List Printed)
    {r r' : List Text}, Text.LeavesBlock r → Text.LeavesBlock r' →
    allLines indent depth f ++ r = allLines indent depth g ++ r' → f = g ∧ r = r'
  | _, [], [], _, _, _, _, h => ⟨rfl, h⟩
  | depth, [], b :: bs, _, r', hr, _, h => by
    rw [allLines, List.nil_append] at h
    exact absurd (h ▸ hr) (not_leavesBlock depth b bs r')
  | depth, b :: bs, [], r, _, _, hr', h => by
    rw [allLines, List.nil_append] at h
    exact absurd (h ▸ hr') (not_leavesBlock depth b bs r)
  | depth, .line t :: bs, .line u :: bs', r, r', hr, hr', h => by
    obtain ⟨hline, hrest⟩ := List.cons.inj h
    obtain ⟨rfl, rfl⟩ := allLines_append_inj indent depth bs bs' hr hr' hrest
    obtain rfl : t = u := List.append_cancel_left (List.append_cancel_right hline)
    exact ⟨rfl, rfl⟩
  | depth, .line t :: bs, .block head body :: bs', _, _, _, _, h => by
    rw [allLines_line_append, allLines_block_append] at h
    have hlast := congrArg List.getLast? (List.cons.inj h).1
    simp [FlatItem.getLast?_headLine] at hlast
  | depth, .block head body :: bs, .line u :: bs', _, _, _, _, h => by
    rw [allLines_line_append, allLines_block_append] at h
    have hlast := congrArg List.getLast? (List.cons.inj h).1
    simp [FlatItem.getLast?_headLine] at hlast
  | depth, .block head body :: bs, .block head' body' :: bs', r, r', hr, hr', h => by
    rw [allLines_block_append, allLines_block_append] at h
    obtain ⟨hline, hrest⟩ := List.cons.inj h
    obtain rfl : head = head' := List.append_cancel_left (List.append_cancel_right hline)
    -- the line that closes this block leaves its body
    obtain ⟨rfl, hclose⟩ := allLines_append_inj indent (depth + 1) body body'
      (Text.leavesBlock_close _ _) (Text.leavesBlock_close _ _) hrest
    obtain ⟨rfl, rfl⟩ := allLines_append_inj indent depth bs bs' hr hr' (List.cons.inj hclose).2
    exact ⟨rfl, rfl⟩

theorem allLines_inj (indent : Text) (depth : Nat) {f g : List Printed} :
    allLines indent depth f = allLines indent depth g ↔ f = g := by
  refine ⟨fun h => ?_, congrArg _⟩
  have hnil : Text.LeavesBlock [] := by
    intro l hl
    cases hl
  refine (allLines_append_inj indent depth f g hnil hnil ?_).1
  rw [h]

end Printed

/-! ### Reading lines off a text -/

/-- A text that is one line, and not an empty one. -/
def Text.IsLine (l : Text) : Prop := '\n' ∉ l ∧ l ≠ []

/-- Lines can be told from the text that they are joined to. -/
theorem Text.join_lines_inj {ls ls' : List Text} (hls : ∀ l ∈ ls, l.IsLine)
    (hls' : ∀ l ∈ ls', l.IsLine) (h : join ['\n'] ls = join ['\n'] ls') : ls = ls' := by
  have hne : ∀ {ms : List Text}, (∀ l ∈ ms, l.IsLine) → ms ≠ [] → join ['\n'] ms ≠ [] := by
    intro ms hms hne
    obtain ⟨l, ms, rfl⟩ := List.exists_cons_of_ne_nil hne
    have hl := (hms l List.mem_cons_self).2
    cases ms with
    | nil => simpa [join, List.intercalate] using hl
    | cons m ms => simp [join, List.intercalate, hl]
  rcases eq_or_ne ls [] with rfl | hleft
  · by_contra hright
    exact hne hls' (Ne.symm hright) h.symm
  rcases eq_or_ne ls' [] with rfl | hright
  · exact absurd h (hne hls hleft)
  calc ls = (join ['\n'] ls).splitOn '\n' :=
        (List.splitOn_intercalate '\n' (fun l hl => (hls l hl).1) hleft).symm
    _ = (join ['\n'] ls').splitOn '\n' := by rw [h]
    _ = ls' := List.splitOn_intercalate '\n' (fun l hl => (hls' l hl).1) hright

theorem Text.not_mem_indentation {indent : Text} (h : '\n' ∉ indent) (depth : Nat) :
    '\n' ∉ indentation indent depth :=
  fun hmem => h (mem_of_mem_indentation hmem)

section IsLine

variable {pad : Text} (hpad : '\n' ∉ pad)

include hpad

theorem FlatItem.isLine_declarationLine {d : Text × Text} (hd : '\n' ∉ d.1 ∧ '\n' ∉ d.2) :
    (declarationLine pad d).IsLine := by
  simp [Text.IsLine, declarationLine, hpad, hd.1, hd.2]

theorem FlatItem.isLine_block {head : Text} (hhead : '\n' ∉ head) {body : List Text}
    (hbody : ∀ l ∈ body, l.IsLine) :
    ∀ l ∈ headLine pad head :: body ++ [closeLine pad], l.IsLine := by
  refine List.forall_mem_append.2 ⟨List.forall_mem_cons.2 ⟨?_, hbody⟩,
    List.forall_mem_singleton.2 ?_⟩
  · simp [Text.IsLine, headLine, hpad, hhead]
  · simp [Text.IsLine, closeLine, hpad]

end IsLine

theorem Text.not_mem_join {sep : Text} {ts : List Text} {c : Char} (hsep : c ∉ sep)
    (h : ∀ t ∈ ts, c ∉ t) : c ∉ join sep ts := by
  induction ts with
  | nil => exact List.not_mem_nil
  | cons t ts ih =>
    obtain ⟨ht, hts⟩ := List.forall_mem_cons.1 h
    cases ts with
    | nil => simpa [join, List.intercalate] using ht
    | cons u ts =>
      rw [join, List.intercalate_cons_cons, List.mem_append, List.mem_append, not_or, not_or]
      exact ⟨⟨ht, hsep⟩, ih hts⟩

mutual

theorem FlatItem.isLine_lines {indent : Text} (hindent : '\n' ∉ indent) :
    ∀ (depth : Nat) {i : FlatItem}, i.Unbroken → ∀ l ∈ i.lines indent depth, l.IsLine
  | depth, .rule [] declarations, h => List.forall_mem_map.2 fun d hd =>
    FlatItem.isLine_declarationLine (Text.not_mem_indentation hindent depth) (h.2 d hd)
  | depth, .rule (s :: ss) declarations, h => by
    have hpad := Text.not_mem_indentation hindent depth
    have hinner : '\n' ∉ Text.indentation indent depth ++ indent := by simp [hpad, hindent]
    have hhead := Text.not_mem_join (by decide : '\n' ∉ ", ".toList) h.1
    exact FlatItem.isLine_block hpad hhead
      (List.forall_mem_map.2 fun d hd => FlatItem.isLine_declarationLine hinner (h.2 d hd))
  | depth, .atRule prelude items, h =>
    FlatItem.isLine_block (Text.not_mem_indentation hindent depth) h.1
      (Stylesheet.isLine_lines hindent (depth + 1) h.2)

theorem Stylesheet.isLine_lines {indent : Text} (hindent : '\n' ∉ indent) :
    ∀ (depth : Nat) {s : Stylesheet}, Stylesheet.Unbroken s →
      ∀ l ∈ Stylesheet.lines indent depth s, l.IsLine
  | _, [], _ => List.forall_mem_nil _
  | depth, _ :: _, h => List.forall_mem_append.2
    ⟨FlatItem.isLine_lines hindent depth h.1, Stylesheet.isLine_lines hindent depth h.2⟩

end

/-- Two style sheets are printed alike exactly if they are the same forest, and no line is cut short
in print. -/
theorem Stylesheet.print_eq_iff_forest_eq {indent : Text} {a b : Stylesheet}
    (hindent : '\n' ∉ indent) (ha : Stylesheet.Unbroken a) (hb : Stylesheet.Unbroken b) :
    (Stylesheet.print indent a = Stylesheet.print indent b ↔
        Stylesheet.forest a = Stylesheet.forest b) ∧
      ∀ s : Stylesheet, ∀ l ∈ Stylesheet.lines indent 0 s, Text.stripRight l = l := by
  constructor
  · rw [← Printed.allLines_inj indent 0, Stylesheet.allLines_forest,
      Stylesheet.allLines_forest, Stylesheet.print, Stylesheet.print, Stylesheet.stripRight_lines,
      Stylesheet.stripRight_lines]
    exact ⟨Text.join_lines_inj (Stylesheet.isLine_lines hindent 0 ha)
      (Stylesheet.isLine_lines hindent 0 hb), congrArg _⟩
  · intro s
    have hsame := Stylesheet.stripRight_lines indent 0 s
    exact List.map_inj_left.1 (hsame.trans (List.map_id _).symm)

/-- A rule under two selectors, with a value that looks like more than one line. -/
def Stylesheet.ruleSample : Stylesheet :=
  [.rule ["a".toList, "b".toList] [("k".toList, "\x7d; \x7b".toList)]]

/-- An at-rule that is printed like `ruleSample`. -/
def Stylesheet.preludeSample : Stylesheet :=
  [.atRule "a, b".toList [.rule [] [], .rule [] [("k".toList, "\x7d; \x7b".toList)]], .rule [] []]

theorem Stylesheet.print_ruleSample_eq_preludeSample :
    '\n' ∉ "\t".toList ∧ Stylesheet.Unbroken ruleSample ∧ Stylesheet.Unbroken preludeSample ∧
      Stylesheet.print "\t".toList ruleSample = Stylesheet.print "\t".toList preludeSample := by
  have hindent : '\n' ∉ "\t".toList := by decide
  have hrule : Stylesheet.Unbroken ruleSample := ⟨⟨by decide, by decide⟩, trivial⟩
  have hprelude : Stylesheet.Unbroken preludeSample :=
    ⟨⟨by decide, ⟨by decide, by decide⟩, ⟨by decide, by decide⟩, trivial⟩,
      ⟨by decide, by decide⟩, trivial⟩
  exact ⟨hindent, hrule, hprelude,
    (Stylesheet.print_eq_iff_forest_eq hindent hrule hprelude).1.2 rfl⟩

end ScopedCss
