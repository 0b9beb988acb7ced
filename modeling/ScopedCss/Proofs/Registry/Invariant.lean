/-
What stays true of a registry as long as nobody clears it. `Inv` ties the stored styles, the counts
of all handles, stale ones included, and the events to the calls made so far; `Run.inv` carries it
along every run.

Holding and releasing a style are one step, `Inv.recount`, on a style that is `Ready` for it: one
that was handed out before, or a new one. What carries it is `Ready.live_iff`: a style about to change
hands is held exactly when its fingerprint is live, because a handle that is not stored is never held.
-/
import ScopedCss.Proofs.Except
import ScopedCss.Proofs.Registry.Run

namespace ScopedCss

/-- A style is compiled under the fingerprint of its request. -/
theorem Style.fingerprint_of_compile {config : Config} {transforms : List Transform} {q : Request}
    {style : Style} (h : (Style.compile config transforms q).2 = .ok style) :
    style.fingerprint = q.fingerprint := by
  simp only [Style.compile, bind_eq_ok] at h
  obtain ⟨_, -, _, -, sheet, -, h⟩ := h
  simp only [mapError_eq_ok, Style.ofSheet, bind_eq_ok, pure_eq_ok] at h
  obtain ⟨items, -, rfl⟩ := h
  rfl

namespace Registry

/-- A fingerprint whose style is stored and held. -/
def Live (r : Registry) (hs : Holdings) (key : Text) : Prop :=
  ∃ h, r.get? key = some h ∧ 0 < hs.holders h

/-- First holders and last releases by turns, a first holder first. -/
def Alternating (ts : List EventType) : Prop :=
  ∀ i t, ts[i]? = some t → t = if i % 2 = 0 then .registered else .unregistered

theorem Alternating.append {ts : List EventType} (h : Alternating ts) {t : EventType}
    (ht : t = if ts.length % 2 = 0 then .registered else .unregistered) :
    Alternating (ts ++ [t]) := by
  intro i u hu
  by_cases hi : i < ts.length
  · rw [List.getElem?_append_left hi] at hu
    exact h i u hu
  · have hlt := (List.getElem?_eq_some_iff.1 hu).1
    simp only [List.length_append, List.length_cons, List.length_nil] at hlt
    obtain rfl : i = ts.length := by omega
    simp only [List.getElem?_concat_length, Option.some.injEq] at hu
    rw [← hu, ht]

/-- The last turn is a first holder exactly after an odd number of turns. -/
theorem Alternating.getLast?_eq_registered {ts : List EventType} (h : Alternating ts) :
    ts.getLast? = some .registered ↔ ts.length % 2 = 1 := by
  rw [List.getLast?_eq_getElem?]
  cases hl : ts[ts.length - 1]? with
  | none =>
    have : ts.length = 0 := by
      have := List.getElem?_eq_none_iff.1 hl
      omega
    simp [this]
  | some t =>
    have hlt := (List.getElem?_eq_some_iff.1 hl).1
    rw [h _ _ hl]
    by_cases he : (ts.length - 1) % 2 = 0
    · have : ts.length % 2 = 1 := by omega
      simp [he, this]
    · have : ts.length % 2 = 0 := by omega
      simp [he, this]

namespace History

theorem yielded_append (history : History) (e : Entry) (h : Handle) :
    yielded (history ++ [e]) h = history.yielded h + if e.yields h then 1 else 0 := by
  simp [yielded, List.countP_append, List.countP_singleton]

theorem released_append (history : History) (e : Entry) (h : Handle) :
    released (history ++ [e]) h = history.released h + if e.releases h then 1 else 0 := by
  simp [released, List.countP_append, List.countP_singleton]

theorem returned_append_iff {history : History} {e : Entry} {h : Handle} :
    Returned (history ++ [e]) h ↔ history.Returned h ∨ e.yields h = true := by
  simp [Returned, or_and_right, exists_or]

theorem yielded_eq_zero {history : History} {h : Handle} (hn : ¬history.Returned h) :
    history.yielded h = 0 :=
  List.countP_eq_zero.2 fun e he hy => hn ⟨e, he, hy⟩

theorem notices_append_none {history : History} {e : Entry} (he : e.events = []) (key : Text) :
    notices (history ++ [e]) key = history.notices key := by
  simp [notices, he]

theorem notices_append_self {history : History} {e : Entry} {ev : Event} {key : Text}
    (he : e.events = [ev]) (hk : ev.fingerprint? = some key) :
    notices (history ++ [e]) key = history.notices key ++ [ev.type] := by
  simp [notices, he, hk]

theorem notices_append_other {history : History} {e : Entry} {ev : Event} {key : Text}
    (he : e.events = [ev]) (hk : ev.fingerprint? ≠ some key) :
    notices (history ++ [e]) key = history.notices key := by
  simp [notices, he, hk]

end History

/-- The registry `r` after a release that leaves `n` holders of the style `h` under `key`. -/
def Drops (r r' : Registry) (key : Text) (n : Nat) : Prop :=
  r' = if n = 0 then r.afterLast key else r

/-- What becomes of a registry when the style `h` under `key` comes to have `n` holders: either it
is stored from then on or nothing is under its fingerprint, and all others stay as they are. -/
structure Recounts (r r' : Registry) (key : Text) (h : Handle) (n : Nat) : Prop where
  before : ∀ h', r.get? key = some h' → h' = h
  after : r'.get? key = some h ∧ (r.config.retainUnused = false → 0 < n) ∨
    r'.get? key = none ∧ n = 0
  other : ∀ key', key' ≠ key → r'.get? key' = r.get? key'
  config : r'.config = r.config
  keys : (r.entries.map (·.1)).Nodup → (r'.entries.map (·.1)).Nodup

namespace Recounts

variable {r r' : Registry} {key : Text} {h : Handle} {n : Nat}

/-- A style that stays as it is stored. -/
theorem same (hg : r.get? key = some h) (hn : r.config.retainUnused = false → 0 < n) :
    Recounts r r key h n where
  before _ hg' := Option.some.inj (hg'.symm.trans hg)
  after := .inl ⟨hg, hn⟩
  other _ _ := rfl
  config := rfl
  keys hk := hk

theorem of_stores (hs : Stores r r' key h) (hn : 0 < n) : Recounts r r' key h n := by
  rcases hs with ⟨hg, rfl⟩ | ⟨hg, rfl⟩
  · exact same hg fun _ => hn
  · exact
      { before := fun h' hg' => by rw [hg] at hg'; cases hg'
        after := .inl ⟨Assoc.get?_insert_self h hg, fun _ => hn⟩
        other := fun _ hne => Assoc.get?_insert_other h hg hne
        config := rfl
        keys := Assoc.nodup_insert h hg }

theorem of_drops (hd : Drops r r' key n) (hg : r.get? key = some h) : Recounts r r' key h n := by
  by_cases h0 : n = 0
  · rw [Drops, if_pos h0, afterLast] at hd
    split at hd
    · rename_i hretain
      rw [hd]
      exact same hg fun hf => by rw [hf] at hretain; cases hretain
    · rw [hd]
      exact
        { before := fun h' hg' => Option.some.inj (hg'.symm.trans hg)
          after := .inr ⟨Assoc.get?_erase_self _ _, h0⟩
          other := fun _ hne => Assoc.get?_erase_other _ hne
          config := rfl
          keys := Assoc.nodup_erase key }
  · rw [Drops, if_neg h0] at hd
    rw [hd]
    exact same hg fun _ => Nat.pos_of_ne_zero h0

end Recounts

/-- A registry in good order after the calls of `history`. -/
structure Inv (history : History) (r : Registry) (hs : Holdings) : Prop where
  keys : (r.entries.map (·.1)).Nodup
  stored : ∀ key h, r.get? key = some h →
    history.Returned h ∧ ∃ holding, hs[h]? = some holding ∧ holding.style.fingerprint = key
  idle : ∀ h holding, history.Returned h → hs[h]? = some holding →
    r.get? holding.style.fingerprint ≠ some h → holding.holders = 0
  used : r.config.retainUnused = false → ∀ key h, r.get? key = some h → 0 < hs.holders h
  counted : ∀ h, history.Returned h → hs.holders h + history.released h = history.yielded h
  turns : ∀ key, Alternating (history.notices key)
  odd : ∀ key, (history.notices key).length % 2 = 1 ↔ Live r hs key
  returned : ∀ h, history.Returned h → h < hs.length
  unreleased : ∀ h, ¬history.Returned h → history.released h = 0

/-- A style that may change hands: it is held only if it is stored, and it has the holders that the
calls gave it. -/
structure Ready (history : History) (r : Registry) (hs : Holdings) (h : Handle)
    (holding : Holding) : Prop where
  here : hs[h]? = some holding
  idle : r.get? holding.style.fingerprint ≠ some h → holding.holders = 0
  counted : holding.holders + history.released h = history.yielded h

/-- A style about to change hands is held exactly when its fingerprint is live. -/
theorem Ready.live_iff {history : History} {r r' : Registry} {hs : Holdings} {h : Handle}
    {holding : Holding} (hready : Ready history r hs h holding) {n : Nat}
    (hrec : Recounts r r' holding.style.fingerprint h n) :
    Live r hs holding.style.fingerprint ↔ 0 < holding.holders := by
  cases hg : r.get? holding.style.fingerprint with
  | none =>
    have h0 := hready.idle (by rw [hg]; simp)
    simp [Live, hg, h0]
  | some h' =>
    obtain rfl := hrec.before h' hg
    simp [Live, hg, Holdings.holders_of_getElem? hready.here]

/-- What an entry says about a fingerprint that was live, or not, before it and after it: an event
for a change and none else. -/
def Announces (e : Entry) (key : Text) (before after : Prop) : Prop :=
  e.events = [] ∧ (before ↔ after) ∨
    ∃ ev, e.events = [ev] ∧ ev.fingerprint? = some key ∧
      (¬before ∧ after ∧ ev.type = .registered ∨ before ∧ ¬after ∧ ev.type = .unregistered)

namespace Inv

variable {history : History} {r r' : Registry} {hs : Holdings} {h : Handle} {holding : Holding}
  {e : Entry}

theorem start {r : Registry} (hs : Holdings) (he : r.entries = []) : Inv [] r hs where
  keys := by simp [he]
  stored key h hg := by simp [get?, he, Assoc.get?] at hg
  idle h holding hret := by simp [History.Returned] at hret
  used _ key h hg := by simp [get?, he, Assoc.get?] at hg
  counted h hret := by simp [History.Returned] at hret
  turns key i t ht := by simp [History.notices] at ht
  odd key := by simp [History.notices, Live, get?, he, Assoc.get?]
  returned h hret := by simp [History.Returned] at hret
  unreleased _ _ := rfl

/-- A call that changes nothing and says so. -/
theorem same (hi : Inv history r hs) (hy : ∀ h, e.yields h = false)
    (hr : ∀ h, e.releases h = false) (he : e.events = []) : Inv (history ++ [e]) r hs := by
  have hret : ∀ h, History.Returned (history ++ [e]) h ↔ history.Returned h := by
    intro h
    rw [History.returned_append_iff, hy]
    simp
  refine
    { keys := hi.keys
      stored := fun key h hg => ?_
      idle := fun h holding hh => hi.idle h holding ((hret h).1 hh)
      used := hi.used
      counted := fun h hh => ?_
      turns := fun key => ?_
      odd := fun key => ?_
      returned := fun h hh => hi.returned h ((hret h).1 hh)
      unreleased := fun h hn => ?_ }
  · rw [hret]
    exact hi.stored key h hg
  · rw [History.yielded_append, History.released_append, hy, hr]
    simpa using hi.counted h ((hret h).1 hh)
  · rw [History.notices_append_none he]
    exact hi.turns key
  · rw [History.notices_append_none he]
    exact hi.odd key
  · rw [History.released_append, hr]
    simpa using hi.unreleased h (mt (hret h).2 hn)

/-- What becomes of other styles does not matter. -/
theorem elsewhere (hi : Inv history r hs) {hs' : Holdings} (hsp : history.Spares hs hs') :
    Inv history r hs' := by
  have hholders : ∀ h, history.Returned h → hs'.holders h = hs.holders h := by
    intro h hret
    rw [Holdings.holders, hsp h hret, Holdings.holders]
  have hlive : ∀ key, Live r hs' key ↔ Live r hs key := by
    intro key
    refine exists_congr fun h => and_congr_right fun hg => ?_
    rw [hholders h (hi.stored key h hg).1]
  refine
    { keys := hi.keys
      stored := fun key h hg => ?_
      idle := fun h holding hret hh => hi.idle h holding hret ((hsp h hret).symm.trans hh)
      used := fun hf key h hg => ?_
      counted := fun h hret => by rw [hholders h hret]; exact hi.counted h hret
      turns := hi.turns
      odd := fun key => by rw [hlive]; exact hi.odd key
      returned := fun h hret => ?_
      unreleased := hi.unreleased }
  · obtain ⟨hret, holding, hh, hk⟩ := hi.stored key h hg
    exact ⟨hret, holding, (hsp h hret).trans hh, hk⟩
  · rw [hholders h (hi.stored key h hg).1]
    exact hi.used hf key h hg
  · have hh := (hsp h hret).trans (List.getElem?_eq_getElem (hi.returned h hret))
    exact (List.getElem?_eq_some_iff.1 hh).1

/-- A new style that nobody holds yet is not one that was handed out. -/
theorem spares_add (hi : Inv history r hs) (style : Style) (owner : Option RegistryId) :
    history.Spares hs (hs.add style owner) := fun h hret =>
  Holdings.getElem?_add_of_lt style owner (hi.returned h hret)

theorem ready (hi : Inv history r hs) (hret : history.Returned h) (hh : hs[h]? = some holding) :
    Ready history r hs h holding where
  here := hh
  idle := hi.idle h holding hret hh
  counted := by
    rw [← Holdings.holders_of_getElem? hh]
    exact hi.counted h hret

theorem ready_add (hi : Inv history r hs) (style : Style) (owner : Option RegistryId) :
    Ready history r (hs.add style owner) hs.fresh { style := style, owner := owner } where
  here := Holdings.getElem?_add_fresh hs style owner
  idle _ := rfl
  counted := by
    have hn : ¬history.Returned hs.fresh := fun hret => Nat.lt_irrefl _ (hi.returned _ hret)
    rw [hi.unreleased _ hn, History.yielded_eq_zero hn]

/-- Another style than `h` keeps its count when that of `h` changes. -/
theorem holders_other (hi : Inv history r hs) (hh : hs[h]? = some holding) (n : Nat)
    {key : Text} {h' : Handle} (hne : key ≠ holding.style.fingerprint)
    (hg : r.get? key = some h') : (hs.setHolders h n).holders h' = hs.holders h' := by
  apply Holdings.holders_setHolders_other
  rintro rfl
  obtain ⟨-, holding', hh', hk⟩ := hi.stored key h' hg
  rw [hh] at hh'
  exact hne (by rw [← hk, Option.some.inj hh'])

/-- A fingerprint other than that of `h` stays live or not when the count of `h` changes. -/
theorem live_other (hi : Inv history r hs) (hh : hs[h]? = some holding) (n : Nat)
    {key : Text} (hne : key ≠ holding.style.fingerprint) (hg : r'.get? key = r.get? key) :
    Live r' (hs.setHolders h n) key ↔ Live r hs key := by
  simp only [Live, hg]
  constructor
  · rintro ⟨h', hg', hpos⟩
    rw [hi.holders_other hh n hne hg'] at hpos
    exact ⟨h', hg', hpos⟩
  · rintro ⟨h', hg', hpos⟩
    refine ⟨h', hg', ?_⟩
    rwa [hi.holders_other hh n hne hg']

theorem stored_setHolders (hi : Inv history r hs) (n : Nat) {key : Text} {h' : Handle}
    (hg : r.get? key = some h') :
    history.Returned h' ∧ ∃ holding', (hs.setHolders h n)[h']? = some holding' ∧
      holding'.style.fingerprint = key := by
  obtain ⟨hret, holding', hh', hk⟩ := hi.stored key h' hg
  obtain ⟨after, hafter, hstyle⟩ := Holdings.exists_getElem?_setHolders h n hh'
  exact ⟨hret, after, hafter, by rw [hstyle, hk]⟩

/-- An event for every change of a fingerprint's liveness and for nothing else keeps the events in
turn. -/
theorem announced (hi : Inv history r hs) {key₀ : Text} {hs' : Holdings}
    (ha : Announces e key₀ (Live r hs key₀) (Live r' hs' key₀))
    (hother : ∀ key, key ≠ key₀ → (Live r' hs' key ↔ Live r hs key)) (key : Text) :
    Alternating (History.notices (history ++ [e]) key) ∧
      ((History.notices (history ++ [e]) key).length % 2 = 1 ↔ Live r' hs' key) := by
  rcases ha with ⟨he, hsame⟩ | ⟨ev, he, hev, hch⟩
  · rw [History.notices_append_none he, hi.odd key]
    refine ⟨hi.turns key, ?_⟩
    by_cases hk : key = key₀
    · rw [hk]; exact hsame
    · exact (hother key hk).symm
  by_cases hk : key = key₀
  · subst hk
    rw [History.notices_append_self he hev, List.length_append, List.length_singleton]
    have hodd := hi.odd key
    rcases hch with ⟨hb, ha, ht⟩ | ⟨hb, ha, ht⟩
    · have heven : (history.notices key).length % 2 = 0 := by
        have := mt hodd.1 hb
        omega
      refine ⟨(hi.turns key).append (by rw [if_pos heven, ht]), ?_⟩
      simp only [ha, iff_true]
      omega
    · have hone := hodd.2 hb
      refine ⟨(hi.turns key).append (by rw [if_neg (by omega), ht]), ?_⟩
      simp only [ha, iff_false]
      omega
  · have hne : ev.fingerprint? ≠ some key := by
      rw [hev]
      intro h
      exact hk (Option.some.inj h).symm
    rw [History.notices_append_other he hne, hi.odd key]
    exact ⟨hi.turns key, (hother key hk).symm⟩

/-- The count of one style changes, with its place in the registry, an event for a first holder or a
last release, and an entry that yields or releases that style only. -/
theorem recount (hi : Inv history r hs) (hready : Ready history r hs h holding)
    {n : Nat} (hrec : Recounts r r' holding.style.fingerprint h n)
    (hret : History.Returned (history ++ [e]) h) (hy : ∀ h', h' ≠ h → e.yields h' = false)
    (hr : ∀ h', h' ≠ h → e.releases h' = false)
    (hcount : n + (if e.releases h then 1 else 0) = holding.holders + if e.yields h then 1 else 0)
    (hann : Announces e holding.style.fingerprint (0 < holding.holders) (0 < n)) :
    Inv (history ++ [e]) r' (hs.setHolders h n) := by
  have hh := hready.here
  have hself := Holdings.holders_setHolders_self n hh
  have hafter : Live r' (hs.setHolders h n) holding.style.fingerprint ↔ 0 < n := by
    rcases hrec.after with ⟨hg, -⟩ | ⟨hg, h0⟩
    · simp [Live, hg, hself]
    · simp [Live, hg, h0]
  have hlive : Announces e holding.style.fingerprint (Live r hs holding.style.fingerprint)
      (Live r' (hs.setHolders h n) holding.style.fingerprint) := by
    rw [hready.live_iff hrec, hafter]
    exact hann
  have htold := hi.announced hlive fun key hk => hi.live_other hh _ hk (hrec.other key hk)
  -- another style was handed out before this call or not at all
  have hbefore : ∀ h', h' ≠ h → (History.Returned (history ++ [e]) h' ↔ history.Returned h') := by
    intro h' hne
    rw [History.returned_append_iff, hy h' hne]
    simp
  refine
    { keys := hrec.keys hi.keys
      stored := ?_
      idle := ?_
      used := ?_
      counted := ?_
      turns := fun key => (htold key).1
      odd := fun key => (htold key).2
      returned := ?_
      unreleased := ?_ }
  · intro key h' hg'
    by_cases hk : key = holding.style.fingerprint
    · subst hk
      rcases hrec.after with ⟨hg, -⟩ | ⟨hg, -⟩ <;> rw [hg] at hg'
      · obtain rfl := Option.some.inj hg'
        exact ⟨hret, _, Holdings.getElem?_setHolders_self _ hh, rfl⟩
      · cases hg'
    · rw [hrec.other key hk] at hg'
      obtain ⟨hret', hholding⟩ := hi.stored_setHolders n hg'
      exact ⟨History.returned_append_iff.2 (.inl hret'), hholding⟩
  · intro h' holding' hret' hh' hne
    by_cases hhe : h' = h
    · subst hhe
      rw [Holdings.getElem?_setHolders_self _ hh] at hh'
      obtain rfl := Option.some.inj hh'
      rcases hrec.after with ⟨hg, -⟩ | ⟨-, h0⟩
      · exact absurd hg hne
      · exact h0
    · rw [Holdings.getElem?_setHolders_other hs _ hhe] at hh'
      refine hi.idle h' holding' ((hbefore h' hhe).1 hret') hh' fun hg => ?_
      -- a style stored under the fingerprint of `h` is `h` itself
      by_cases hk : holding'.style.fingerprint = holding.style.fingerprint
      · rw [hk] at hg
        exact hhe (hrec.before h' hg)
      · exact hne ((hrec.other _ hk).trans hg)
  · intro hretain key h' hg'
    rw [hrec.config] at hretain
    by_cases hk : key = holding.style.fingerprint
    · subst hk
      rcases hrec.after with ⟨hg, hpos⟩ | ⟨hg, -⟩ <;> rw [hg] at hg'
      · obtain rfl := Option.some.inj hg'
        rw [hself]
        exact hpos hretain
      · cases hg'
    · rw [hrec.other key hk] at hg'
      rw [hi.holders_other hh _ hk hg']
      exact hi.used hretain key h' hg'
  · intro h' hret'
    rw [History.yielded_append, History.released_append]
    by_cases hhe : h' = h
    · subst hhe
      have hc := hready.counted
      rw [hself]
      omega
    · have hc := hi.counted h' ((hbefore h' hhe).1 hret')
      rw [Holdings.holders_setHolders_other hs _ hhe, hy h' hhe, hr h' hhe]
      simpa using hc
  · intro h' hret'
    rw [Holdings.length_setHolders]
    by_cases hhe : h' = h
    · rw [hhe]
      exact (List.getElem?_eq_some_iff.1 hh).1
    · exact hi.returned h' ((hbefore h' hhe).1 hret')
  · intro h' hn
    have hhe : h' ≠ h := by
      rintro rfl
      exact hn hret
    rw [History.released_append, hr h' hhe, hi.unreleased h' (mt (hbefore h' hhe).2 hn)]
    rfl

/-- One more holder of a style that is stored, or is stored again now. -/
theorem hold (hi : Inv history r hs) (hready : Ready history r hs h holding)
    (hst : Stores r r' holding.style.fingerprint h) (hy : ∀ h', e.yields h' = (h == h'))
    (hr : ∀ h', e.releases h' = false)
    (he : e.events =
      (if holding.holders = 0 then some (.ofRegistered holding.style) else none).toList) :
    Inv (history ++ [e]) r' (hs.setHolders h (holding.holders + 1)) := by
  have hpos : 0 < holding.holders + 1 := Nat.succ_pos _
  have hyields : e.yields h = true := by rw [hy]; exact BEq.rfl
  refine hi.recount hready (.of_stores hst hpos) (History.returned_append_iff.2 (.inr hyields))
    (fun h' hne => ?_) (fun h' _ => hr h') ?_ ?_
  · rw [hy]
    exact beq_false_of_ne (Ne.symm hne)
  · simp [hy, hr]
  · by_cases h0 : holding.holders = 0
    · rw [if_pos h0] at he
      exact .inr ⟨_, he, rfl, .inl ⟨by omega, hpos, rfl⟩⟩
    · rw [if_neg h0] at he
      exact .inl ⟨he, by omega⟩

/-- One holder less of a stored style. -/
theorem release (hi : Inv history r hs) (hh : hs[h]? = some holding)
    (hg : r.get? holding.style.fingerprint = some h) {n : Nat} (hn : holding.holders = n + 1)
    (hd : Drops r r' holding.style.fingerprint n) (hy : ∀ h', e.yields h' = false)
    (hr : ∀ h', e.releases h' = (h == h'))
    (he : e.events = (if n = 0 then some (.ofUnregistered holding.style) else none).toList) :
    Inv (history ++ [e]) r' (hs.setHolders h n) := by
  have hret := (hi.stored _ _ hg).1
  refine hi.recount (hi.ready hret hh) (.of_drops hd hg) (History.returned_append_iff.2 (.inl hret))
    (fun h' _ => hy h') (fun h' hne => ?_) ?_ ?_
  · rw [hr]
    exact beq_false_of_ne (Ne.symm hne)
  · simp [hy, hr, hn]
  · by_cases h0 : n = 0
    · rw [if_pos h0] at he
      exact .inr ⟨_, he, rfl, .inr ⟨by omega, by omega, rfl⟩⟩
    · rw [if_neg h0] at he
      exact .inl ⟨he, by omega⟩

theorem exists_stored (hi : Inv history r hs) {key : Text} (hg : r.get? key = some h) :
    ∃ holding, hs[h]? = some holding := by
  obtain ⟨-, holding, hh, -⟩ := hi.stored _ _ hg
  exact ⟨holding, hh⟩

theorem exists_holding (hi : Inv history r hs) (hret : history.Returned h) :
    ∃ holding, hs[h]? = some holding :=
  ⟨_, List.getElem?_eq_getElem (hi.returned h hret)⟩

/-- What compiling keeps. -/
theorem compile (hi : Inv history r hs) (owner : RegistryId) (q : Request) :
    Inv (history ++ [.of (.compile q) ((Call.compile q).perform owner r hs)])
      ((Call.compile q).perform owner r hs).registry
      ((Call.compile q).perform owner r hs).holdings := by
  rcases compile_cases owner q fun h hg => hi.exists_stored hg with
    ⟨err, log, -, hc⟩ | ⟨-, ⟨h, holding, hg, hh, hc⟩ | ⟨style, log, hg, hstyle, hc⟩⟩
  · simp only [Call.perform, hc, Change.map]
    exact hi.same (fun _ => rfl) (fun _ => rfl) rfl
  · obtain ⟨hret, holding', hh', hk⟩ := hi.stored _ _ hg
    rw [hh] at hh'
    obtain rfl := Option.some.inj hh'
    simp only [Call.perform, hc, Change.map, Registry.hold]
    exact hi.hold (hi.ready hret hh) (.inl ⟨hk ▸ hg, rfl⟩) (fun _ => rfl) (fun _ => rfl) rfl
  · have hfp := Style.fingerprint_of_compile hstyle
    have hnew : r.get? style.fingerprint = none := by rw [hfp]; exact hg
    simp only [Call.perform, hc, Change.map, Registry.hold]
    refine (hi.elsewhere (hi.spares_add style (some owner))).hold (hi.ready_add style (some owner))
      (.inr ⟨hnew, ?_⟩) (fun _ => rfl) (fun _ => rfl) rfl
    rw [hfp]

/-- What registering a style keeps. -/
theorem register (hi : Inv history r hs) (owner : RegistryId) (hret : history.Returned h) :
    Inv (history ++ [.of (.register h) ((Call.register h).perform owner r hs)])
      ((Call.register h).perform owner r hs).registry
      ((Call.register h).perform owner r hs).holdings := by
  obtain ⟨holding, hh⟩ := hi.exists_holding hret
  rcases acquire_cases (r := r) hh with ⟨r', hst, hc⟩ | ⟨err, hc⟩
  · simp only [Call.perform, hc, Change.map, Registry.hold]
    exact hi.hold (hi.ready hret hh) hst (fun _ => rfl) (fun _ => rfl) rfl
  · simp only [Call.perform, hc, Change.map]
    exact hi.same (fun _ => rfl) (fun _ => rfl) rfl

/-- What unregistering a style keeps. -/
theorem unregister (hi : Inv history r hs) (owner : RegistryId)
    (hret : history.Returned h) :
    Inv (history ++ [.of (.unregister h) ((Call.unregister h).perform owner r hs)])
      ((Call.unregister h).perform owner r hs).registry
      ((Call.unregister h).perform owner r hs).holdings := by
  obtain ⟨holding, hh⟩ := hi.exists_holding hret
  obtain ⟨hres, hcase⟩ := release_cases (r := r) hh
  have hy : ∀ h', Entry.yields h'
      (.of (.unregister h) ((Call.unregister h).perform owner r hs)) = false := by
    intro h'
    simp [Entry.yields, Entry.of, Call.perform, Change.map, hres, Except.map, Except.toOption]
  rcases hcase with ⟨hr, hhs, hev, hlog⟩ | ⟨n, hg, hn, hr, hhs, hev, hlog⟩
  · simp only [Call.perform, Change.map, hr, hhs]
    refine hi.same hy (fun _ => ?_) (by simp [Entry.of, hev])
    simp [Entry.releases, Entry.of, hlog]
  · simp only [Call.perform, Change.map, hhs]
    refine hi.release hh hg hn hr hy (fun _ => ?_) (by simp [Entry.of, hev])
    simp [Entry.releases, Entry.of, hlog]

end Inv

/-- A history in which nobody clears the registry. -/
def History.WithoutClear (history : History) : Prop := ∀ e ∈ history, e.call ≠ .clear

/-- A registry that starts out empty is in good order throughout a run without `clear`. -/
theorem Run.inv {owner : RegistryId} {r₀ r : Registry} {hs₀ hs : Holdings} {history : History}
    (he : r₀.entries = []) (hr : Run owner r₀ hs₀ history r hs) (hc : history.WithoutClear) :
    Inv history r hs := by
  induction hr with
  | start => exact Inv.start hs₀ he
  | elsewhere _ spared ih => exact (ih hc).elsewhere spared
  | @call history r hs c _ known ih =>
    have hi := ih fun e he => hc e (List.mem_append_left _ he)
    cases c with
    | compile q => exact hi.compile owner q
    | register h => exact hi.register owner (known h rfl)
    | unregister h => exact hi.unregister owner (known h rfl)
    | clear => exact absurd rfl (hc _ (List.mem_append_right _ (List.mem_singleton_self _)))

end Registry

end ScopedCss
