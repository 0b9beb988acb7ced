/-
Compiled texts as sources. `Registry.compile_reprint`: what a new registry answers with is read
without a fault, and compiled as a global style it is answered with itself, provided that the source
comes out as it was read (`Request.Reprintable`).

A source need not: `//**/*` is two marks with a comment between them, and they are written as the
beginning of a comment (`Registry.compile_unreadable`).
-/
import ScopedCss.Proofs.Registry.Cache
import ScopedCss.Proofs.Stylesheet.Reprint
import ScopedCss.Proofs.Stylesheet.ScopeClass

namespace ScopedCss

namespace Request

/-- What a request is flattened under. -/
def scope (config : Config) (q : Request) : Scope :=
  ⟨if q.isGlobal then none
    else some (Fingerprint.className q.digest config.classStem config.hashLength)⟩

/-- A source that comes out as it was read: no comment alone keeps two of its tokens apart, other
than beside a `;`, a brace or such a mark as a comma, and no token ends in a backslash; its brackets
are closed at every `;` and brace, and selectors come to stand only where they can, with no two
combinators together. -/
structure Reprintable (q : Request) : Prop where
  tight : Token.TightParts (Text.tokenize q.source).tokens
  level : Token.level 0 (Text.tokenize q.source).tokens = true
  joins : ∀ sheet ∈ (Sheet.parse q.source).toOption,
    sheet.eachRule (q.scope {}) (Selector.joinsApart (q.scope {})) [] true = true

/-- The root of a scope is a mark and a name. -/
theorem root_scope (q : Request) :
    ∃ c x, Text.IsName x ∧ (c = '.' ∨ c = ':') ∧ Text.opens (c :: x) = true ∧
      (q.scope {}).root = c :: x := by
  cases hglobal : q.isGlobal with
  | true =>
    have hname : Text.IsName "root".toList := ⟨by decide, List.all_eq_true.1 (by decide)⟩
    refine ⟨':', "root".toList, hname, .inr rfl, by decide, ?_⟩
    rw [scope, hglobal]
    rfl
  | false =>
    have hname := Fingerprint.isName_className q.digest Fingerprint.defaultLength
    refine ⟨'.', _, hname, .inl rfl, hname.opens_point, ?_⟩
    obtain ⟨c, x, hx⟩ : ∃ c x, Fingerprint.className q.digest Fingerprint.defaultStem
        Fingerprint.defaultLength = c :: x := by
      refine List.exists_cons_of_ne_nil fun hnil => ?_
      rw [hnil] at hname
      cases hname.starts
    simp [scope, hglobal, Scope.root, hx]

theorem exists_root (q : Request) (place : Location) :
    ∃ root, Token.IsStretch place root [Token.join root] ∧ (Token.join root).opens = true ∧
      (∃ c ∈ (Token.join root).head?, c ≠ '@') ∧ Token.join root = (q.scope {}).root := by
  obtain ⟨c, x, hx, hc, hopens, hroot⟩ := q.root_scope
  have hstretch := hx.isStretch place hc
  have hjoin : Token.join [⟨.punct, [c], [c], place, false⟩, ⟨.ident, x, x, place, false⟩] =
      c :: x := by simpa using hstretch.text
  have hne : c ≠ '@' := by
    rcases hc with rfl | rfl <;> decide
  refine ⟨[⟨.punct, [c], [c], place, false⟩, ⟨.ident, x, x, place, false⟩], ?_⟩
  rw [hjoin]
  exact ⟨hstretch, hopens, ⟨c, rfl, hne⟩, hroot.symm⟩

/-- The output of a request without placeholders, if it is reprintable, is read without a fault and
has itself as output. -/
theorem exists_reprint {q : Request} {css : Text} (houtput : q.output {} = .ok css)
    (hplain : Token.Plain (Text.tokenize q.source).tokens) (h : q.Reprintable) :
    ∃ sheet, Sheet.parse css = .ok sheet ∧ Sheet.dangling sheet = [] ∧
      output {} { source := css, isGlobal := true } = .ok css := by
  simp only [output, bind_eq_ok, pure_eq_ok] at houtput
  obtain ⟨_, -, sheet, hparse, filled, hexpand, items, hflatten, rfl⟩ := houtput
  have hwritable := Text.writableParts default h.tight
  have hfilled := Sheet.filled_of_run hplain hparse
  rw [Sheet.expand_of_filled q.values (Sheet.wellFormed_pieces hparse) hfilled] at hexpand
  obtain rfl : sheet = filled := Except.ok.inj hexpand
  obtain ⟨root, hroot, hopens, hleads, hscope⟩ := q.exists_root default
  have hlegible : Stylesheet.Legible default true items :=
    Sheet.legible_flattenIn hroot hopens hleads hscope (List.forall_mem_nil _) (by rintro _ ⟨⟩)
      (Sheet.legible_of_run hwritable hplain h.level hparse)
      (h.joins sheet (by rw [hparse]; rfl)) hflatten
  have hindent : ∀ c ∈ Stylesheet.defaultIndent, Lexeme.isSpace c = true :=
    List.all_eq_true.1 (by decide)
  obtain ⟨sheet', out, hparse', hsettled, hflatten', hsame⟩ :=
    Stylesheet.exists_sheet hindent hlegible
  obtain ⟨hfilled', hdangling⟩ := Sheet.filled_of_settled hsettled
  refine ⟨sheet', hparse', hdangling, ?_⟩
  simp only [output, bind_eq_ok, pure_eq_ok]
  exact ⟨(), rfl, sheet', hparse', sheet',
    Sheet.expand_of_filled .none (Sheet.wellFormed_pieces hparse') hfilled', out, hflatten',
    (hsame.print _).symm⟩

end Request

namespace Registry

/-- A new registry answers a request with its output. -/
theorem answers_iff_output (owner : RegistryId) (q : Request) (output : Except Error Text) :
    (Registry.compile {} [] owner q).Answers output ↔ q.output {} = output := by
  have hanswers : (Registry.compile {} [] owner q).Answers (q.output {}) :=
    (Inv.start [] rfl).compile_answers owner rfl fun _ => rfl
  rw [Change.Answers, hanswers]
  cases q.output {} <;> cases output <;> simp [Except.map, Except.mapError]

/-- **What a new registry compiles a source without placeholders to is read without a fault, and
compiled as a global style it comes to itself**, if the source comes out as it was read. -/
theorem compile_reprint (owner : RegistryId) {q : Request} {css : Text}
    (hcompile : (Registry.compile {} [] owner q).Answers (.ok css))
    (hplain : Token.Plain (Text.tokenize q.source).tokens) (h : q.Reprintable) :
    (∃ sheet, Sheet.parse css = .ok sheet ∧ Sheet.dangling sheet = []) ∧
      (Registry.compile {} [] owner { source := css, isGlobal := true }).Answers (.ok css) := by
  rw [answers_iff_output] at hcompile ⊢
  obtain ⟨sheet, hparse, hdangling, houtput⟩ := Request.exists_reprint hcompile hplain h
  exact ⟨⟨sheet, hparse, hdangling⟩, houtput⟩

/-- A bare declaration, comments, a selector list, a nested rule and frames. -/
def variedRequest : Request where
  source := "a: b /* c */ d;/**/e > .f,/**/g/**/\x7b i: j(k); &:m \x7b n: o \x7d \x7d".toList ++
    "@keyframes v \x7b 50% \x7b w: x \x7d \x7d".toList

/-- What it is compiled to. -/
def variedText : Text :=
  ".stylescope-mwlyib5u \x7b\n  a: b d;\n\x7d\n".toList ++
    "e.stylescope-mwlyib5u > .f, g.stylescope-mwlyib5u \x7b\n  i: j(k);\n\x7d\n".toList ++
    "e.stylescope-mwlyib5u > .f:m, g.stylescope-mwlyib5u:m \x7b\n  n: o;\n\x7d\n".toList ++
    "@keyframes v \x7b\n  50% \x7b\n    w: x;\n  \x7d\n\x7d".toList

theorem compile_reprint_variedRequest :
    (Registry.compile {} [] 0 variedRequest).Answers (.ok variedText) ∧
      (∃ sheet, Sheet.parse variedText = .ok sheet ∧ Sheet.dangling sheet = []) ∧
      (Registry.compile {} [] 0 { source := variedText, isGlobal := true }).Answers
        (.ok variedText) := by
  have hcompile : (Registry.compile {} [] 0 variedRequest).Answers (.ok variedText) := by
    rw [answers_iff_output]
    decide +kernel
  have hreprintable : variedRequest.Reprintable :=
    ⟨by decide +kernel, by decide +kernel, by decide +kernel⟩
  exact ⟨hcompile, compile_reprint 0 hcompile (by decide +kernel) hreprintable⟩

/-- Two marks with a comment between them. -/
def gluedRequest : Request where
  source := "a \x7b b: //**/* \x7d".toList
  isGlobal := true

def gluedText : Text := "a \x7b\n  b: /*;\n\x7d".toList

/-- The marks are written as the beginning of a comment, which nothing ends. -/
theorem compile_unreadable :
    Token.Plain (Text.tokenize gluedRequest.source).tokens ∧
      (Registry.compile {} [] 0 gluedRequest).Answers (.ok gluedText) ∧
      (∀ sheet, Sheet.parse gluedText ≠ .ok sheet) ∧
      ¬(Registry.compile {} [] 0 { source := gluedText, isGlobal := true }).Answers
        (.ok gluedText) := by
  have hparse : (Sheet.parse gluedText).toOption.isNone = true := by decide +kernel
  refine ⟨by decide +kernel, ?_, fun sheet hsheet => ?_, ?_⟩
  · rw [answers_iff_output]
    decide +kernel
  · rw [hsheet] at hparse
    cases hparse
  · rw [answers_iff_output]
    decide +kernel

end Registry

end ScopedCss
