/-
What a registry answers a request with, against what the request comes to by itself.

A style is shared between requests of one payload, and a payload forgets indentation and how values
were given. `Run.compile_transparent_iff` says what that amounts to: a shared style is the output of
the request it was first compiled for, so the answer is right exactly if that output is.
-/
import ScopedCss.Proofs.Fingerprint.Normal
import ScopedCss.Proofs.Fingerprint.Payload
import ScopedCss.Proofs.Fingerprint.Values
import ScopedCss.Proofs.Registry.Invariant
import ScopedCss.Proofs.Stylesheet.Relocation

namespace ScopedCss

/-- No two of these messages share a digest. -/
def Sha256.CollisionFree (messages : List (List UInt8)) : Prop :=
  ∀ a ∈ messages, ∀ b ∈ messages, digest a = digest b → a = b

/-- Two sources with one normal form, both freely indented, come to the same stylesheets, whatever is
filled in. -/
theorem Sheet.exists_reindented {source₀ source : Text} (h₀ : source₀.FreelyIndented)
    (h : source.FreelyIndented)
    (hnormal : Fingerprint.normalize source₀ = Fingerprint.normalize source) {vs : Values}
    {parsed₀ sheet₀ : Sheet} (hparse : Sheet.parse source₀ = .ok parsed₀)
    (hexpand : Sheet.expand vs parsed₀ = .ok sheet₀) :
    ∃ parsed sheet, Sheet.parse source = .ok parsed ∧ Sheet.expand vs parsed = .ok sheet ∧
      ∀ scope, sheet.flatten scope = sheet₀.flatten scope := by
  have place := Location.endOf source
  have hread : moved place (Sheet.movedTo place) (Sheet.parse source) =
      .ok (parsed₀.movedTo place) := by
    rw [← moved_parse_normalize place h, ← hnormal, moved_parse_normalize place h₀, hparse, moved_ok]
  obtain ⟨parsed, hparsed, hmoved⟩ := (moved_eq_ok place).1 hread
  have hfilled : moved place (Sheet.movedTo place) (Sheet.expand vs parsed) =
      .ok (sheet₀.movedTo place) := by
    rw [← Sheet.expand_movedTo, hmoved, Sheet.expand_movedTo, hexpand, moved_ok]
  obtain ⟨sheet, hsheet, hmoved'⟩ := (moved_eq_ok place).1 hfilled
  refine ⟨parsed, sheet, hparsed, hsheet, fun scope => ?_⟩
  calc sheet.flatten scope
      = (sheet.movedTo place).flatten scope :=
        (Sheet.flattenIn_movedTo (Sheet.filled_of_expand hsheet)).symm
    _ = (sheet₀.movedTo place).flatten scope := by rw [hmoved']
    _ = sheet₀.flatten scope := Sheet.flattenIn_movedTo (Sheet.filled_of_expand hexpand)

namespace Request

/-- The bytes that the digest of a request is taken of. -/
def message (q : Request) : List UInt8 :=
  Fingerprint.utf8 (Fingerprint.payload q.source q.values q.isGlobal)

/-- What a request comes to by itself: its sheet, filled in with its values and flattened under the
class name of its digest, as text. Its values have to be written for the digest. -/
def output (config : Config) (q : Request) : Except Error Text := do
  q.values.check
  let sheet ← Sheet.parse q.source
  let sheet ← Sheet.expand q.values sheet
  let className := Fingerprint.className q.digest config.classStem config.hashLength
  let items ← sheet.flatten ⟨if q.isGlobal then none else some className⟩
  return Stylesheet.print config.indent items

/-- Requests that a fingerprint does not tell apart. -/
structure Alike (q q' : Request) : Prop where
  source : Fingerprint.normalize q.source = Fingerprint.normalize q'.source
  values : Fingerprint.valuePairs q.values = Fingerprint.valuePairs q'.values
  isGlobal : q.isGlobal = q'.isGlobal

variable {q q₀ : Request}

theorem message_eq_iff : q₀.message = q.message ↔ q₀.Alike q := by
  constructor
  · intro h
    obtain ⟨hs, hv, hg⟩ := Fingerprint.payload_inj_iff.1 (Fingerprint.utf8_inj h)
    exact ⟨hs, hv, hg⟩
  · rintro ⟨hs, hv, hg⟩
    rw [message, message, Fingerprint.payload_inj_iff.2 ⟨hs, hv, hg⟩]

theorem digest_eq (q : Request) : q.digest = Sha256.digest q.message := rfl

theorem message_eq_of_fingerprint_eq {qs : List Request}
    (hsha : Sha256.CollisionFree (qs.map message)) (hq₀ : q₀ ∈ qs) (hq : q ∈ qs)
    (h : q₀.fingerprint = q.fingerprint) : q₀.message = q.message :=
  hsha _ (List.mem_map_of_mem hq₀) _ (List.mem_map_of_mem hq) (Hex.encode_inj h)

/-- The same source, or the same one indented otherwise where that does not matter. -/
def SameWords (q₀ q : Request) : Prop :=
  q₀.source = q.source ∨ q₀.source.FreelyIndented ∧ q.source.FreelyIndented

/-- Of two requests that are alike, are in the same words and are given their values in one way, the
second comes to what the first does. -/
theorem Alike.output_eq (ha : q₀.Alike q) (hw : q.values.areWritable = true)
    (hwords : q₀.SameWords q) (hvalues : q.values.StandsFor q₀.values) {config : Config}
    {css : Text} (h : q₀.output config = .ok css) : q.output config = .ok css := by
  have hdigest : q₀.digest = q.digest := by
    rw [digest_eq, digest_eq, message_eq_iff.2 ha]
  simp only [output, bind_eq_ok, pure_eq_ok] at h ⊢
  obtain ⟨_, hcheck, parsed₀, hparse, sheet₀, hexpand, items, hflatten, rfl⟩ := h
  have hrefines : q.values.Refines q₀.values :=
    Values.refines_of_valuePairs_eq hw (Values.check_eq_ok.1 hcheck) hvalues ha.values
  have hexpand' := Sheet.expand_mono hrefines hexpand
  obtain ⟨parsed, sheet, hparse', hsheet, hsame⟩ : ∃ parsed sheet,
      Sheet.parse q.source = .ok parsed ∧ Sheet.expand q.values parsed = .ok sheet ∧
        ∀ scope, sheet.flatten scope = sheet₀.flatten scope := by
    rcases hwords with hsource | ⟨hfree₀, hfree⟩
    · exact ⟨parsed₀, sheet₀, hsource ▸ hparse, hexpand', fun _ => rfl⟩
    · exact Sheet.exists_reindented hfree₀ hfree ha.source hparse hexpand'
  rw [hdigest, ha.isGlobal] at hflatten
  exact ⟨(), Values.check_eq_ok.2 hw, parsed, hparse', sheet, hsheet, items,
    (hsame _).trans hflatten, rfl⟩

theorem output_of_unwritable {err : Error} (h : q.values.check = .error err) (config : Config) :
    q.output config = .error err := by
  rw [output, h]
  rfl

end Request

/-- Compiling without transforms runs a request by itself. -/
theorem Style.compile_map_cssText (config : Config) {q : Request} (h : q.values.check = .ok ()) :
    (Style.compile config [] q).2.map (·.cssText) = (q.output config).mapError .style := by
  simp only [Style.compile, Style.ofSheet, Request.output, Sheet.parse, List.foldlM_nil, h]
  cases (Sheet.read q.source).result with
  | error e => rfl
  | ok parsed =>
    cases hexpand : Sheet.expand q.values parsed with
    | error e => simp [Except.mapError, hexpand, Except.map]
    | ok sheet =>
      simp only [Except.mapError, ok_bind, pure_bind, hexpand]
      cases sheet.flatten _ <;> rfl

/-- The text of the style that a change hands out, or its error. -/
def Change.text (ch : Change Handle) : Except Refusal (Option Text) :=
  ch.result.map fun h => ch.holdings[h]?.map (·.style.cssText)

/-- Whether a change hands out a style with this text, or fails with this error. -/
def Change.Answers (ch : Change Handle) (output : Except Error Text) : Prop :=
  ch.text = (output.map some).mapError .style

instance (ch : Change Handle) (output : Except Error Text) : Decidable (ch.Answers output) :=
  inferInstanceAs (Decidable (_ = _))

namespace Registry

/-- The request that a call compiles. -/
def Call.request? : Call → Option Request
  | compile q => some q
  | _ => none

namespace History

/-- The requests of a run in order. -/
def requests (history : History) : List Request := history.filterMap (·.call.request?)

/-- The request that a style was first handed out for. -/
def origin (history : History) (h : Handle) : Option Request :=
  (history.find? (·.yields h)).bind (·.call.request?)

theorem mem_requests_of_origin {history : History} {h : Handle} {q : Request}
    (ho : history.origin h = some q) : q ∈ history.requests := by
  simp only [origin, Option.bind_eq_some_iff] at ho
  obtain ⟨e, he, hq⟩ := ho
  exact List.mem_filterMap.2 ⟨e, List.mem_of_find?_eq_some he, hq⟩

theorem origin_append {history : History} {h : Handle} {q : Request} (e : Entry)
    (ho : history.origin h = some q) : origin (history ++ [e]) h = some q := by
  simp only [origin, Option.bind_eq_some_iff] at ho ⊢
  obtain ⟨e', he, hq⟩ := ho
  exact ⟨e', by rw [List.find?_append, he]; rfl, hq⟩

theorem origin_append_new {history : History} {h : Handle} {e : Entry} (hn : ¬history.Returned h)
    (he : e.yields h = true) : origin (history ++ [e]) h = e.call.request? := by
  have hnone : history.find? (·.yields h) = none := by
    rw [List.find?_eq_none]
    intro e' he' hy
    exact hn ⟨e', he', hy⟩
  simp [origin, List.find?_append, hnone, he]

end History

variable {owner : RegistryId} {history : History} {r₀ r : Registry} {hs₀ hs : Holdings}

/-- A call keeps the styles there are. -/
theorem Inv.style_perform (hi : Inv history r hs) (owner : RegistryId) {c : Call}
    (known : ∀ h, c.subject? = some h → history.Returned h) {h : Handle} {holding : Holding}
    (hh : hs[h]? = some holding) :
    (c.perform owner r hs).holdings[h]?.map (·.style) = some holding.style := by
  have hsame : hs[h]?.map (·.style) = some holding.style := by rw [hh]; rfl
  cases c with
  | compile q =>
    rcases compile_cases owner q fun h hg => hi.exists_stored hg with
      ⟨err, log, -, hc⟩ | ⟨-, ⟨h', holding', -, -, hc⟩ | ⟨style, log, -, -, hc⟩⟩ <;>
      simp only [Call.perform, hc, Change.map, Registry.hold]
    · exact hsame
    · rw [Holdings.style_setHolders]
      exact hsame
    · rw [Holdings.style_setHolders,
        Holdings.getElem?_add_of_lt style _ (List.getElem?_eq_some_iff.1 hh).1]
      exact hsame
  | register h' =>
    obtain ⟨holding', hh'⟩ := hi.exists_holding (known h' rfl)
    rcases acquire_cases (r := r) hh' with ⟨r', -, hc⟩ | ⟨err, hc⟩ <;>
      simp only [Call.perform, hc, Change.map, Registry.hold]
    · rw [Holdings.style_setHolders]
      exact hsame
    · exact hsame
  | unregister h' =>
    obtain ⟨holding', hh'⟩ := hi.exists_holding (known h' rfl)
    simp only [Call.perform, Change.map]
    rcases (release_cases (r := r) hh').2 with ⟨-, hhs, -⟩ | ⟨n, -, -, -, hhs, -⟩ <;> rw [hhs]
    · exact hsame
    · rw [Holdings.style_setHolders]
      exact hsame
  | clear => exact hsame

/-- What a call yields was handed out before, or is new and what the call compiles. -/
theorem Inv.yields_perform (hi : Inv history r hs) (owner : RegistryId) {c : Call}
    (known : ∀ h, c.subject? = some h → history.Returned h) {h : Handle}
    (hy : Entry.yields h (.of c (c.perform owner r hs)) = true) :
    history.Returned h ∨ ¬history.Returned h ∧ ∃ q style, c = .compile q ∧
      q.values.check = .ok () ∧ (Style.compile r.config r.transforms q).2 = .ok style ∧
      (c.perform owner r hs).holdings[h]?.map (·.style) = some style := by
  cases c with
  | compile q =>
    rcases compile_cases owner q fun h hg => hi.exists_stored hg with
      ⟨err, log, -, hc⟩ | ⟨hcheck, ⟨h', holding', hg, -, hc⟩ | ⟨style, log, -, hstyle, hc⟩⟩ <;>
      simp only [Call.perform, hc, Change.map, Registry.hold] at hy ⊢
    · cases hy
    · obtain rfl : h' = h := beq_iff_eq.1 hy
      exact .inl (hi.stored _ _ hg).1
    · obtain rfl : hs.fresh = h := beq_iff_eq.1 hy
      refine .inr ⟨fun hret => Nat.lt_irrefl _ (hi.returned _ hret), q, style, rfl, hcheck,
        hstyle, ?_⟩
      rw [Holdings.style_setHolders, Holdings.getElem?_add_fresh]
      rfl
  | register h' =>
    obtain ⟨holding', hh'⟩ := hi.exists_holding (known h' rfl)
    rcases acquire_cases (r := r) hh' with ⟨r', -, hc⟩ | ⟨err, hc⟩ <;>
      simp only [Call.perform, hc, Change.map, Registry.hold] at hy
    · obtain rfl : h' = h := beq_iff_eq.1 hy
      exact .inl (known h' rfl)
    · cases hy
  | unregister h' =>
    obtain ⟨holding', hh'⟩ := hi.exists_holding (known h' rfl)
    simp [Entry.yields, Entry.of, Call.perform, Change.map, (release_cases (r := r) hh').1,
      Except.map, Except.toOption] at hy
  | clear => cases hy

/-- Every style that was handed out is what the request it was first handed out for compiles to. -/
theorem Run.exists_origin (he : r₀.entries = []) (hr : Run owner r₀ hs₀ history r hs)
    (hc : history.WithoutClear) {h : Handle} {holding : Holding} (hret : history.Returned h)
    (hh : hs[h]? = some holding) :
    ∃ q, history.origin h = some q ∧ q.values.check = .ok () ∧
      (Style.compile r₀.config r₀.transforms q).2 = .ok holding.style := by
  induction hr generalizing holding with
  | start => simp [History.Returned] at hret
  | elsewhere _ spared ih => exact ih hc hret ((spared h hret).symm.trans hh)
  | @call history r hs c before known ih =>
    have hc' : history.WithoutClear := fun e he => hc e (List.mem_append_left _ he)
    have hi := before.inv he hc'
    have hbefore : history.Returned h ∨ _ :=
      (History.returned_append_iff.1 hret).elim .inl (hi.yields_perform owner known)
    rcases hbefore with hret' | ⟨hnew, q, style, rfl, hcheck, hstyle, hsame⟩
    · obtain ⟨holding', hh'⟩ := hi.exists_holding hret'
      obtain ⟨q, ho, hcheck, hstyle⟩ := ih hc' hret' hh'
      have hsame := hi.style_perform owner known hh'
      rw [hh] at hsame
      refine ⟨q, History.origin_append _ ho, hcheck, hstyle.trans ?_⟩
      exact congrArg _ (Option.some.inj hsame).symm
    · rw [hh] at hsame
      refine ⟨q, History.origin_append_new hnew ?_, hcheck, ?_⟩
      · exact (History.returned_append_iff.1 hret).resolve_left hnew
      · rw [← before.settings.1, ← before.settings.2, hstyle]
        exact congrArg _ (Option.some.inj hsame).symm

/-- A request that shares no stored style is answered with its own output. -/
theorem Inv.compile_answers (hi : Inv history r hs) (owner : RegistryId) {q : Request}
    (ht : r.transforms = [])
    (hg : q.values.areWritable = true → r.get? q.fingerprint = none) :
    (r.compile hs owner q).Answers (q.output r.config) := by
  rcases compile_cases owner q fun h hg => hi.exists_stored hg with
    ⟨e, log, hdeclines, hc⟩ | ⟨hcheck, ⟨h, holding, hg', -⟩ | ⟨style, log, -, hstyle, hc⟩⟩
  · rcases hdeclines with ⟨err, hcheck, rfl⟩ | ⟨hcheck, -, herr⟩
    · rw [hc, Request.output_of_unwritable hcheck]
      rfl
    · rw [ht] at herr
      have hout := Style.compile_map_cssText r.config hcheck
      rw [herr] at hout
      cases hq : q.output r.config with
      | ok css => rw [hq] at hout; cases hout
      | error err =>
        rw [hq] at hout
        obtain rfl : e = .style err := Except.error.inj hout
        rw [hc]
        rfl
  · rw [hg (Values.check_eq_ok.1 hcheck)] at hg'
    cases hg'
  · rw [ht] at hstyle
    have hout := Style.compile_map_cssText r.config hcheck
    rw [hstyle] at hout
    have hset := Holdings.getElem?_setHolders_self 1 (Holdings.getElem?_add_fresh hs style owner)
    rw [mapError_eq_ok.1 hout.symm]
    simp [hc, Change.Answers, Change.text, Registry.hold, Except.map, Except.mapError, hset]

/-- A request whose fingerprint is stored is answered with the stored text. -/
theorem Inv.compile_answers_stored (hi : Inv history r hs) (owner : RegistryId) {q : Request}
    (hw : q.values.areWritable = true) {h : Handle} {holding : Holding}
    (hg : r.get? q.fingerprint = some h) (hh : hs[h]? = some holding)
    {output : Except Error Text} :
    (r.compile hs owner q).Answers output ↔ output = .ok holding.style.cssText := by
  have hcheck := Values.check_eq_ok.2 hw
  rcases compile_cases owner q fun h hg => hi.exists_stored hg with
    ⟨e, log, ⟨err, hcheck', -⟩ | ⟨-, hg', -⟩, -⟩ | ⟨-, ⟨h', holding', hg', hh', hc⟩ |
      ⟨style, log, hg', -⟩⟩
  · rw [hcheck] at hcheck'
    cases hcheck'
  · rw [hg] at hg'
    cases hg'
  · rw [hg] at hg'
    obtain rfl := Option.some.inj hg'
    rw [hh] at hh'
    obtain rfl := Option.some.inj hh'
    have hset := Holdings.getElem?_setHolders_self (holding.holders + 1) hh
    simp only [hc, Change.Answers, Change.text, Registry.hold, Except.map, hset, Option.map_some]
    cases output <;> simp [Except.mapError, eq_comm]
  · rw [hg] at hg'
    cases hg'

/-- A stored style is the output of an earlier request that is alike. -/
theorem Run.exists_alike (he : r₀.entries = []) (ht : r₀.transforms = [])
    (hr : Run owner r₀ hs₀ history r hs) (hc : history.WithoutClear) {q : Request}
    (hsha : Sha256.CollisionFree ((q :: history.requests).map Request.message))
    (hw : q.values.areWritable = true) {h : Handle} (hg : r.get? q.fingerprint = some h) :
    ∃ q₀ css, history.origin h = some q₀ ∧ q₀.Alike q ∧ q₀.output r₀.config = .ok css ∧
      ∀ output, (r.compile hs owner q).Answers output ↔ output = .ok css := by
  have hi := hr.inv he hc
  obtain ⟨hret, holding, hh, hkey⟩ := hi.stored _ _ hg
  obtain ⟨q₀, ho, hcheck, hstyle⟩ := hr.exists_origin he hc hret hh
  have hsame : q₀.fingerprint = q.fingerprint :=
    (Style.fingerprint_of_compile hstyle).symm.trans hkey
  have hmessage := Request.message_eq_of_fingerprint_eq hsha
    (List.mem_cons_of_mem _ (History.mem_requests_of_origin ho)) List.mem_cons_self hsame
  refine ⟨q₀, holding.style.cssText, ho, Request.message_eq_iff.1 hmessage, ?_,
    fun output => hi.compile_answers_stored owner hw hg hh⟩
  have hout := Style.compile_map_cssText r₀.config hcheck
  rw [← ht, hstyle] at hout
  exact mapError_eq_ok.1 hout.symm

/-- **A registry without transforms answers a request with its own output, or with that of the
request the stored style was first compiled for.** That one is alike, so the answer is right unless
the two differ in indentation that reaches the output, or in how their values were given. Values that
cannot be written are refused before a style is shared. -/
theorem Run.compile_transparent_iff (he : r₀.entries = []) (ht : r₀.transforms = [])
    (hr : Run owner r₀ hs₀ history r hs) (hc : history.WithoutClear) (q : Request)
    (hsha : Sha256.CollisionFree ((q :: history.requests).map Request.message)) :
    (∀ h, q.values.areWritable = true → r.get? q.fingerprint = some h →
      ∃ q₀ css, history.origin h = some q₀ ∧ q₀.Alike q ∧ q₀.output r₀.config = .ok css ∧
        (r.compile hs owner q).Answers (.ok css)) ∧
    ((r.compile hs owner q).Answers (q.output r₀.config) ↔
      (q.values.areWritable = true → ∀ h q₀, r.get? q.fingerprint = some h →
        history.origin h = some q₀ → q.output r₀.config = q₀.output r₀.config)) ∧
    ((∀ q₀ ∈ history.requests, q₀.Alike q →
        q₀.SameWords q ∧ q.values.StandsFor q₀.values) →
      (r.compile hs owner q).Answers (q.output r₀.config)) := by
  have hstored := fun hw h => hr.exists_alike (h := h) he ht hc hsha hw
  have hnew : (q.values.areWritable = true → r.get? q.fingerprint = none) →
      (r.compile hs owner q).Answers (q.output r₀.config) := by
    rw [← hr.settings.1]
    exact (hr.inv he hc).compile_answers owner (hr.settings.2.trans ht)
  have hiff : (r.compile hs owner q).Answers (q.output r₀.config) ↔
      (q.values.areWritable = true → ∀ h q₀, r.get? q.fingerprint = some h →
        history.origin h = some q₀ → q.output r₀.config = q₀.output r₀.config) := by
    constructor
    · intro hq hw h q₀ hg ho
      obtain ⟨q₁, css, ho₁, -, hcss, hans⟩ := hstored hw h hg
      obtain rfl := Option.some.inj (ho.symm.trans ho₁)
      rw [(hans _).1 hq, hcss]
    · intro hsame
      by_cases hfree : q.values.areWritable = true → r.get? q.fingerprint = none
      · exact hnew hfree
      · obtain ⟨hw, hg⟩ := Classical.not_imp.1 hfree
        obtain ⟨h, hg⟩ := Option.ne_none_iff_exists'.1 hg
        obtain ⟨q₀, css, ho, -, hcss, hans⟩ := hstored hw h hg
        exact (hans _).2 ((hsame hw h q₀ hg ho).trans hcss)
  refine ⟨?_, hiff, fun hgiven => hiff.2 fun hw h q₀ hg ho => ?_⟩
  · intro h hw hg
    obtain ⟨q₀, css, ho, ha, hcss, hans⟩ := hstored hw h hg
    exact ⟨q₀, css, ho, ha, hcss, (hans _).2 rfl⟩
  · obtain ⟨q₁, css, ho₁, ha, hcss, -⟩ := hstored hw h hg
    obtain rfl := Option.some.inj (ho.symm.trans ho₁)
    obtain ⟨hwords, hvalues⟩ := hgiven q₀ (History.mem_requests_of_origin ho) ha
    rw [ha.output_eq hw hwords hvalues hcss, hcss]

/-- An empty registry after it has compiled one request. -/
def afterFirst (q : Request) : Change (Option Handle) := (Call.compile q).perform 0 {} []

/-- Its history. -/
def firstHistory (q : Request) : History := [.of (.compile q) (afterFirst q)]

theorem run_firstHistory (q : Request) :
    Run 0 {} [] (firstHistory q) (afterFirst q).registry (afterFirst q).holdings :=
  .call (.compile q) .start nofun

theorem withoutClear_firstHistory (q : Request) : (firstHistory q).WithoutClear := by
  intro e he
  rw [List.mem_singleton.1 he]
  nofun

/-- Two requests whose digests are taken of the same bytes. -/
theorem collisionFree_firstHistory {q q₀ : Request} (h : q.message = q₀.message) :
    Sha256.CollisionFree ((q :: (firstHistory q₀).requests).map Request.message) := by
  have hsame : ∀ m ∈ (q :: (firstHistory q₀).requests).map Request.message, m = q₀.message := by
    simp [firstHistory, History.requests, Entry.of, Call.request?, h]
  intro a ha b hb _
  rw [hsame a ha, hsame b hb]

/-- A rule over three lines, the second one indented. -/
def ruleRequest (indent : Nat) : Request :=
  { source := "a \x7b\n".toList ++ List.replicate indent ' ' ++ "b: c;\n\x7d".toList }

theorem freelyIndented_ruleRequest : (ruleRequest 2).source.FreelyIndented ∧
    (ruleRequest 4).source.FreelyIndented :=
  ⟨.of_all (by decide +kernel) (by decide +kernel) (by decide +kernel) (by decide +kernel),
    .of_all (by decide +kernel) (by decide +kernel) (by decide +kernel) (by decide +kernel)⟩

/-- The same rule indented further is shared and answered right. -/
theorem compile_transparent_reindented :
    (afterFirst (ruleRequest 2)).registry.get? (ruleRequest 4).fingerprint = some 0 ∧
      ((afterFirst (ruleRequest 2)).registry.compile (afterFirst (ruleRequest 2)).holdings 0
        (ruleRequest 4)).Answers ((ruleRequest 4).output {}) := by
  refine ⟨by decide +kernel, ?_⟩
  refine (Run.compile_transparent_iff rfl rfl (run_firstHistory (ruleRequest 2))
    (withoutClear_firstHistory _) (ruleRequest 4)
    (collisionFree_firstHistory (by decide +kernel))).2.2 ?_
  intro q₀ hq₀ _
  obtain rfl : q₀ = ruleRequest 2 := by
    simpa [firstHistory, History.requests, Entry.of, Call.request?] using hq₀
  exact ⟨.inr freelyIndented_ruleRequest, trivial⟩

/-- A style with a URL over two lines, the second one indented. -/
def urlRequest (indent : Nat) : Request :=
  { source := "a \x7b b: url(x\n".toList ++ List.replicate indent ' ' ++ "y) \x7d".toList }

/-- A URL indented further has another output of its own, but is answered with the text that was
compiled first. -/
theorem compile_shares_other_indentation :
    Run 0 {} [] (firstHistory (urlRequest 2)) (afterFirst (urlRequest 2)).registry
        (afterFirst (urlRequest 2)).holdings ∧
      (firstHistory (urlRequest 2)).WithoutClear ∧
      Sha256.CollisionFree ((urlRequest 4 :: (firstHistory (urlRequest 2)).requests).map
        Request.message) ∧
      ¬((afterFirst (urlRequest 2)).registry.compile (afterFirst (urlRequest 2)).holdings 0
        (urlRequest 4)).Answers ((urlRequest 4).output {}) :=
  ⟨run_firstHistory _, withoutClear_firstHistory _, collisionFree_firstHistory (by decide +kernel),
    by decide +kernel⟩

end Registry

end ScopedCss
