/-
What the host has been told of the styles in a registry that may also be cleared. Clearing drops the
stored styles and leaves the counts of all handles as they are, so a style that is still held can be
taken in again later without gaining a first holder, and nobody is told.

`Followed` holds throughout every run: a style that is stored and held is one the host was last told
about as registered, unless it came back in that way after the host had been told that it is gone
(`History.Unannounced`).
-/
import ScopedCss.Proofs.Registry.Invariant

namespace ScopedCss.Registry

namespace History

theorem notices_append (history later : History) (key : Text) :
    notices (history ++ later) key = history.notices key ++ notices later key := by
  simp [notices, List.filter_append]

/-- Only first holders and last releases are told about a fingerprint. -/
theorem registered_or_unregistered {history : History} {key : Text} {t : EventType}
    (h : t ∈ history.notices key) : t = .registered ∨ t = .unregistered := by
  simp only [notices, List.mem_map, List.mem_filter, decide_eq_true_eq] at h
  obtain ⟨ev, ⟨-, hkey⟩, rfl⟩ := h
  cases ev with
  | registered => exact .inl rfl
  | unregistered => exact .inr rfl
  | other => cases hkey

/-- The style `h` under `key` was taken in again by a call that told nobody, although the host had
last been told that the style is gone; and nothing was said about it since. -/
def Unannounced (history : History) (key : Text) (h : Handle) : Prop :=
  ∃ (before : History) (e : Entry) (after : History), history = before ++ e :: after ∧
    e.call = .register h ∧ e.yields h = true ∧
    (before.notices key).getLast? = some .unregistered ∧ notices (e :: after) key = []

theorem Unannounced.append {history : History} {key : Text} {h : Handle}
    (hu : history.Unannounced key h) {e : Entry} (he : notices [e] key = []) :
    Unannounced (history ++ [e]) key h := by
  obtain ⟨before, e', after, rfl, hcall, hyields, hlast, hsilent⟩ := hu
  refine ⟨before, e', after ++ [e], by simp, hcall, hyields, hlast, ?_⟩
  rw [← List.cons_append, notices_append, hsilent, he, List.append_nil]

/-- A style that came back unannounced is one that the host was last told is gone. -/
theorem Unannounced.getLast? {history : History} {key : Text} {h : Handle}
    (hu : history.Unannounced key h) : (history.notices key).getLast? = some .unregistered := by
  obtain ⟨before, e, after, rfl, -, -, hlast, hsilent⟩ := hu
  rw [notices_append, hsilent, List.append_nil, hlast]

end History

/-- What the host knows of a style that is stored and held. -/
def Known (history : History) (key : Text) (h : Handle) : Prop :=
  (history.notices key).getLast? = some .registered ∨ history.Unannounced key h

/-- Nothing said about a fingerprint leaves what is known of it. -/
theorem Known.append {history : History} {key : Text} {h : Handle} (hk : Known history key h)
    {e : Entry} (he : History.notices [e] key = []) : Known (history ++ [e]) key h := by
  rcases hk with hlast | hu
  · refine .inl ?_
    rwa [History.notices_append, he, List.append_nil]
  · exact .inr (hu.append he)

/-- A registry after the calls of `history`, among them any that clear it. -/
structure Followed (history : History) (r : Registry) (hs : Holdings) : Prop where
  stored : ∀ key h, r.get? key = some h →
    history.Returned h ∧ ∃ holding, hs[h]? = some holding ∧ holding.style.fingerprint = key
  returned : ∀ h, history.Returned h →
    ∃ holding, hs[h]? = some holding ∧ history.notices holding.style.fingerprint ≠ []
  known : ∀ key h, r.get? key = some h → 0 < hs.holders h → Known history key h

namespace Followed

variable {history : History} {r r' : Registry} {hs : Holdings} {h : Handle} {holding : Holding}
  {e : Entry}

theorem start {r : Registry} (hs : Holdings) (he : r.entries = []) : Followed [] r hs where
  stored key h hg := by simp [get?, he, Assoc.get?] at hg
  returned h hr := by obtain ⟨e, he, -⟩ := hr; cases he
  known key h hg := by simp [get?, he, Assoc.get?] at hg

/-- The host has been told of every style that was handed out. -/
theorem told (hi : Followed history r hs) (hret : history.Returned h)
    (hh : hs[h]? = some holding) (later : History) :
    History.notices (history ++ later) holding.style.fingerprint ≠ [] := by
  obtain ⟨holding', hh', hne⟩ := hi.returned h hret
  rw [hh] at hh'
  obtain rfl := Option.some.inj hh'
  rw [History.notices_append]
  exact fun hnil => hne (List.append_eq_nil_iff.1 hnil).1

/-- A call that changes nothing and tells nobody. -/
theorem same (hi : Followed history r hs) (hy : ∀ h, e.yields h = false) (he : e.events = []) :
    Followed (history ++ [e]) r hs where
  stored key h hg := by
    obtain ⟨hret, hholding⟩ := hi.stored key h hg
    exact ⟨History.returned_append_iff.2 (.inl hret), hholding⟩
  returned h hret := by
    rcases History.returned_append_iff.1 hret with hret | hyields
    · obtain ⟨holding, hh, hne⟩ := hi.returned h hret
      exact ⟨holding, hh, by rwa [History.notices_append_none he]⟩
    · rw [hy] at hyields
      cases hyields
  known key h hg hpos := (hi.known key h hg hpos).append (by simp [History.notices, he])

/-- What becomes of other styles does not matter. -/
theorem elsewhere (hi : Followed history r hs) {hs' : Holdings} (hsp : history.Spares hs hs') :
    Followed history r hs' where
  stored key h hg := by
    obtain ⟨hret, holding, hh, hk⟩ := hi.stored key h hg
    exact ⟨hret, holding, (hsp h hret).trans hh, hk⟩
  returned h hret := by
    obtain ⟨holding, hh, hne⟩ := hi.returned h hret
    exact ⟨holding, (hsp h hret).trans hh, hne⟩
  known key h hg hpos := by
    have hret := (hi.stored key h hg).1
    rw [Holdings.holders, hsp h hret, ← Holdings.holders] at hpos
    exact hi.known key h hg hpos

/-- A new style that nobody holds yet is not one that was handed out. -/
theorem spares_add (hi : Followed history r hs) (style : Style) (owner : Option RegistryId) :
    history.Spares hs (hs.add style owner) := by
  intro h hret
  obtain ⟨holding, hh, -⟩ := hi.returned h hret
  exact Holdings.getElem?_add_of_lt style owner (List.getElem?_eq_some_iff.1 hh).1

/-- The count of one style changes, with its place in the registry and an event about it at most.
What is known of that style is for the caller to say. -/
theorem recount (hi : Followed history r hs) (hh : hs[h]? = some holding) {n : Nat}
    (hrec : Recounts r r' holding.style.fingerprint h n)
    (hret : ∀ h', e.yields h' = true → h' = h)
    (hh_ret : History.Returned (history ++ [e]) h)
    (htold : History.notices (history ++ [e]) holding.style.fingerprint ≠ [])
    (hother : ∀ key, key ≠ holding.style.fingerprint → History.notices [e] key = [])
    (hknown : 0 < n → Known (history ++ [e]) holding.style.fingerprint h) :
    Followed (history ++ [e]) r' (hs.setHolders h n) := by
  refine ⟨?_, ?_, ?_⟩
  · intro key h' hg
    by_cases hk : key = holding.style.fingerprint
    · subst hk
      rcases hrec.after with ⟨hg', -⟩ | ⟨hg', -⟩ <;> rw [hg'] at hg
      · obtain rfl := Option.some.inj hg
        exact ⟨hh_ret, _, Holdings.getElem?_setHolders_self n hh, rfl⟩
      · cases hg
    · rw [hrec.other key hk] at hg
      obtain ⟨hret', before, hb, hkey⟩ := hi.stored key h' hg
      obtain ⟨after, ha, hsame⟩ := Holdings.exists_getElem?_setHolders h n hb
      exact ⟨History.returned_append_iff.2 (.inl hret'), after, ha, by rw [hsame, hkey]⟩
  · intro h' hret'
    by_cases hhe : h' = h
    · subst hhe
      exact ⟨_, Holdings.getElem?_setHolders_self n hh, htold⟩
    · rcases History.returned_append_iff.1 hret' with hret' | hyields
      · obtain ⟨before, hb, -⟩ := hi.returned h' hret'
        obtain ⟨after, ha, hsame⟩ := Holdings.exists_getElem?_setHolders h n hb
        refine ⟨after, ha, ?_⟩
        rw [hsame]
        exact hi.told hret' hb [e]
      · exact absurd (hret h' hyields) hhe
  · intro key h' hg hpos
    by_cases hk : key = holding.style.fingerprint
    · subst hk
      rcases hrec.after with ⟨hg', -⟩ | ⟨hg', -⟩ <;> rw [hg'] at hg
      · obtain rfl := Option.some.inj hg
        rw [Holdings.holders_setHolders_self n hh] at hpos
        exact hknown hpos
      · cases hg
    · -- a style stored under another fingerprint is another style
      rw [hrec.other key hk] at hg
      have hne : h' ≠ h := by
        rintro rfl
        obtain ⟨-, holding', hh', hkey⟩ := hi.stored key h' hg
        rw [hh] at hh'
        exact hk (by rw [← hkey, Option.some.inj hh'])
      rw [Holdings.holders_setHolders_other hs n hne] at hpos
      exact (hi.known key h' hg hpos).append (hother key hk)

/-- One more holder of a style: it has a first one now, or is stored already, or is taken in again
with the holders that it has. -/
theorem hold (hi : Followed history r hs) (hh : hs[h]? = some holding)
    (hst : Stores r r' holding.style.fingerprint h) (hy : ∀ h', e.yields h' = (h == h'))
    (he : e.events =
      (if holding.holders = 0 then some (.ofRegistered holding.style) else none).toList)
    (hwhy : holding.holders = 0 ∨ r.get? holding.style.fingerprint = some h ∨
      e.call = .register h ∧ history.Returned h) :
    Followed (history ++ [e]) r' (hs.setHolders h (holding.holders + 1)) := by
  have hyields : e.yields h = true := by rw [hy]; exact BEq.rfl
  refine hi.recount hh (.of_stores hst (Nat.succ_pos _)) (fun h' hh' => ?_)
    (History.returned_append_iff.2 (.inr hyields)) ?_ ?_ fun _ => ?_
  · rw [hy] at hh'
    exact (beq_iff_eq.1 hh').symm
  · by_cases h0 : holding.holders = 0
    · rw [if_pos h0] at he
      rw [History.notices_append_self he rfl]
      simp
    · rcases hwhy with h0' | hg | ⟨-, hret⟩
      · exact absurd h0' h0
      · exact hi.told (hi.stored _ _ hg).1 hh [e]
      · exact hi.told hret hh [e]
  · intro key hk
    by_cases h0 : holding.holders = 0
    · rw [if_pos h0] at he
      simp [History.notices, he, Event.ofRegistered, Event.fingerprint?, Ne.symm hk]
    · rw [if_neg h0] at he
      simp [History.notices, he]
  · by_cases h0 : holding.holders = 0
    · rw [if_pos h0] at he
      left
      rw [History.notices_append_self he rfl]
      exact List.getLast?_concat
    · rw [if_neg h0] at he
      have hsilent : History.notices [e] holding.style.fingerprint = [] := by
        simp [History.notices, he]
      rcases hwhy with h0' | hg | ⟨hcall, hret⟩
      · exact absurd h0' h0
      · have hpos : 0 < hs.holders h := by
          rw [Holdings.holders_of_getElem? hh]
          exact Nat.pos_of_ne_zero h0
        exact (hi.known _ h hg hpos).append hsilent
      · -- nobody is told, so what the host last heard decides
        have hne := hi.told hret hh []
        rw [List.append_nil] at hne
        have hlast := List.getLast?_eq_some_getLast hne
        rcases History.registered_or_unregistered (List.getLast_mem hne) with ht | ht
        · rw [ht] at hlast
          exact Known.append (.inl hlast) hsilent
        · rw [ht] at hlast
          exact .inr ⟨history, e, [], rfl, hcall, hyields, hlast, hsilent⟩

/-- One holder less of a stored style. -/
theorem release (hi : Followed history r hs) (hh : hs[h]? = some holding)
    (hg : r.get? holding.style.fingerprint = some h) {n : Nat} (hn : holding.holders = n + 1)
    (hd : Drops r r' holding.style.fingerprint n) (hy : ∀ h', e.yields h' = false)
    (he : e.events = (if n = 0 then some (.ofUnregistered holding.style) else none).toList) :
    Followed (history ++ [e]) r' (hs.setHolders h n) := by
  have hret := (hi.stored _ _ hg).1
  refine hi.recount hh (.of_drops hd hg) (fun h' hh' => ?_)
    (History.returned_append_iff.2 (.inl hret)) ?_ ?_ fun hpos => ?_
  · rw [hy] at hh'
    cases hh'
  · exact hi.told hret hh [e]
  · intro key hk
    by_cases h0 : n = 0
    · rw [if_pos h0] at he
      simp [History.notices, he, Event.ofUnregistered, Event.fingerprint?, Ne.symm hk]
    · rw [if_neg h0] at he
      simp [History.notices, he]
  · rw [if_neg (Nat.ne_of_gt hpos)] at he
    have hheld : 0 < hs.holders h := by
      rw [Holdings.holders_of_getElem? hh, hn]
      exact Nat.succ_pos n
    exact (hi.known _ h hg hheld).append (by simp [History.notices, he])

/-- Nothing is stored in a registry that was just cleared. -/
theorem clear (hi : Followed history r hs) (he : e.events = []) (hy : ∀ h, e.yields h = false) :
    Followed (history ++ [e]) r.clear hs where
  stored key h hg := by simp [get?, Registry.clear, Assoc.get?] at hg
  returned := (hi.same hy he).returned
  known key h hg := by simp [get?, Registry.clear, Assoc.get?] at hg

theorem exists_stored (hi : Followed history r hs) {key : Text} (hg : r.get? key = some h) :
    ∃ holding, hs[h]? = some holding := by
  obtain ⟨-, holding, hh, -⟩ := hi.stored _ _ hg
  exact ⟨holding, hh⟩

/-- What every call keeps. -/
theorem perform (hi : Followed history r hs) (owner : RegistryId) (c : Call)
    (known : ∀ h, c.subject? = some h → history.Returned h) :
    Followed (history ++ [.of c (c.perform owner r hs)]) (c.perform owner r hs).registry
      (c.perform owner r hs).holdings := by
  cases c with
  | compile q =>
    rcases compile_cases owner q fun h hg => hi.exists_stored hg with
      ⟨err, log, -, hc⟩ | ⟨-, ⟨h, holding, hg, hh, hc⟩ | ⟨style, log, hg, hstyle, hc⟩⟩
    · simp only [Call.perform, hc, Change.map]
      exact hi.same (fun _ => rfl) rfl
    · obtain ⟨-, holding', hh', hk⟩ := hi.stored _ _ hg
      rw [hh] at hh'
      obtain rfl := Option.some.inj hh'
      simp only [Call.perform, hc, Change.map, Registry.hold]
      exact hi.hold hh (.inl ⟨hk ▸ hg, rfl⟩) (fun _ => rfl) rfl (.inr (.inl (hk ▸ hg)))
    · have hfp := Style.fingerprint_of_compile hstyle
      have hnew : r.get? style.fingerprint = none := by rw [hfp]; exact hg
      simp only [Call.perform, hc, Change.map, Registry.hold]
      refine (hi.elsewhere (hi.spares_add style (some owner))).hold
        (Holdings.getElem?_add_fresh hs style _) (.inr ⟨hnew, ?_⟩) (fun _ => rfl) rfl (.inl rfl)
      rw [hfp]
  | register h =>
    obtain ⟨holding, hh, -⟩ := hi.returned h (known h rfl)
    rcases acquire_cases (r := r) hh with ⟨r', hst, hc⟩ | ⟨err, hc⟩
    · simp only [Call.perform, hc, Change.map, Registry.hold]
      exact hi.hold hh hst (fun _ => rfl) rfl (.inr (.inr ⟨rfl, known h rfl⟩))
    · simp only [Call.perform, hc, Change.map]
      exact hi.same (fun _ => rfl) rfl
  | unregister h =>
    obtain ⟨holding, hh, -⟩ := hi.returned h (known h rfl)
    obtain ⟨hres, hcase⟩ := release_cases (r := r) hh
    have hy : ∀ h', Entry.yields h'
        (.of (.unregister h) ((Call.unregister h).perform owner r hs)) = false := by
      intro h'
      simp [Entry.yields, Entry.of, Call.perform, Change.map, hres, Except.map, Except.toOption]
    rcases hcase with ⟨hr, hhs, hev, -⟩ | ⟨n, hg, hn, hr, hhs, hev, -⟩
    · simp only [Call.perform, Change.map, hr, hhs]
      exact hi.same hy (by simp [Entry.of, hev])
    · simp only [Call.perform, Change.map, hhs]
      exact hi.release hh hg hn hr hy (by simp [Entry.of, hev])
  | clear => exact hi.clear rfl fun _ => rfl

end Followed

/-- A registry that starts out empty is followed throughout every run. -/
theorem Run.followed {owner : RegistryId} {r₀ r : Registry} {hs₀ hs : Holdings} {history : History}
    (he : r₀.entries = []) (hr : Run owner r₀ hs₀ history r hs) : Followed history r hs := by
  induction hr with
  | start => exact .start hs₀ he
  | call c _ known ih => exact ih.perform owner c known
  | elsewhere _ spared ih => exact ih.elsewhere spared

/-- A style that is stored and held is one that the host was last told about as registered, exactly
unless it came back unannounced. -/
theorem Followed.last_iff {history : History} {r : Registry} {hs : Holdings}
    (hi : Followed history r hs) {key : Text} {h : Handle} (hg : r.get? key = some h)
    (hpos : 0 < hs.holders h) :
    (history.notices key).getLast? = some .registered ↔ ¬history.Unannounced key h := by
  constructor
  · intro hlast hu
    rw [hu.getLast?] at hlast
    cases hlast
  · exact (hi.known key h hg hpos).resolve_right

/-- The calls of a list made one after the other on an empty registry: the history, the registry and
the styles that they come to. -/
def replay (calls : List Call) : History × Registry × Holdings :=
  calls.foldl (fun (history, r, hs) c =>
    (history ++ [.of c (c.perform 0 r hs)], (c.perform 0 r hs).registry,
      (c.perform 0 r hs).holdings)) ([], {}, [])

theorem run_replay {calls : List Call}
    (hr : SoleRun 0 {} [] (replay calls).1 (replay calls).2.1 (replay calls).2.2) (c : Call)
    (known : ∀ h, c.subject? = some h → (replay calls).1.any (·.yields h) = true) :
    SoleRun 0 {} [] (replay (calls ++ [c])).1 (replay (calls ++ [c])).2.1
      (replay (calls ++ [c])).2.2 := by
  have hreplay : replay (calls ++ [c]) =
      ((replay calls).1 ++ [.of c (c.perform 0 (replay calls).2.1 (replay calls).2.2)],
        (c.perform 0 (replay calls).2.1 (replay calls).2.2).registry,
        (c.perform 0 (replay calls).2.1 (replay calls).2.2).holdings) := by
    simp [replay, List.foldl_append]
  rw [hreplay]
  exact .call c hr fun h hh => List.any_eq_true.1 (known h hh)

end ScopedCss.Registry
