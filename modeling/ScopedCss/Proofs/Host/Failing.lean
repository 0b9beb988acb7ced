/-
Calls on a registry that fail, among listeners that may fail themselves but keep away from the
registry. A change is made before anybody is told of it, and a listener that fails takes nothing
back.

`FallibleRun.unchanged_or_complete`: a call that fails of itself changes nothing, and one that fails
only because of a listener leaves what it would leave if nobody listened. `compile_kept_by_failing`:
so a style may be stored and held although the call that compiled it failed.
-/
import ScopedCss.Proofs.Host.Lifecycle

namespace ScopedCss

namespace Registry

/-- The holders of `h` go from `before` to `after`, and those of no other style that was handed out
change. -/
structure Moves (history : History) (h : Handle) (before after : Nat) (hs hs' : Holdings) :
    Prop where
  before : hs.holders h = before
  after : hs'.holders h = after
  others : ∀ h', history.Returned h' → h' ≠ h → hs'.holders h' = hs.holders h'

/-- A call that yields `yielded` gives its style the first holder, or takes the last one from it. -/
def Call.Flips (c : Call) (yielded : Option Handle) (history : History) (hs hs' : Holdings) : Prop :=
  match c with
  | compile _ => ∃ h, yielded = some h ∧ Moves history h 0 1 hs hs'
  | register h => yielded = some h ∧ Moves history h 0 1 hs hs'
  | unregister h => yielded = none ∧ Moves history h 1 0 hs hs'
  | clear => False

section Flips

variable {history : History} {r : Registry} {hs hs' : Holdings} {h : Handle}

theorem Moves.spared {before after : Nat} {hs'' : Holdings}
    (hm : Moves history h before after hs hs') (hh : history.Returned h)
    (hspared : history.Spares hs' hs'') : Moves history h before after hs hs'' where
  before := hm.before
  after := by rw [Holdings.holders, hspared h hh]; exact hm.after
  others h' hh' hne := by rw [Holdings.holders, hspared h' hh']; exact hm.others h' hh' hne

/-- A holder that is announced is the first. -/
theorem moves_of_hold {α : Type} {holding : Holding} {log : List LogEntry} {a : α} {e : Event}
    (hh : hs[h]? = some holding) (he : (r.hold hs h holding log a).event = some e) :
    Moves history h 0 1 hs (r.hold hs h holding log a).holdings := by
  have h0 : holding.holders = 0 := by
    by_cases h0 : holding.holders = 0
    · exact h0
    · simp [Registry.hold, h0] at he
  refine ⟨?_, ?_, fun h' _ hne => Holdings.holders_setHolders_other hs _ hne⟩
  · rw [Holdings.holders_of_getElem? hh, h0]
  · rw [Registry.hold, Holdings.holders_setHolders_self _ hh, h0]

/-- A call that has something to tell is one by which its style gains the first holder or loses the
last one. -/
theorem Followed.flips (hi : Followed history r hs) (owner : RegistryId) {c : Call}
    (known : ∀ h, c.subject? = some h → history.Returned h) {e : Event}
    (he : (c.perform owner r hs).event = some e) {yielded : Option Handle}
    (hres : (c.perform owner r hs).result = .ok yielded) (history' : History) :
    c.Flips yielded history' hs (c.perform owner r hs).holdings := by
  cases c with
  | compile q =>
    rcases compile_cases owner q fun h hg => hi.exists_stored hg with
      ⟨err, log, -, hc⟩ | ⟨-, ⟨h, holding, -, hh, hc⟩ | ⟨style, log, -, -, hc⟩⟩
    · simp [Call.perform, Change.map, hc] at he
    · simp only [Call.perform, Change.map, hc] at he hres ⊢
      exact ⟨h, (Except.ok.inj hres).symm, moves_of_hold hh he⟩
    · simp only [Call.perform, Change.map, hc] at he hres ⊢
      -- the new style has no holders yet when it is added
      have hm : Moves history' hs.fresh 0 1 (hs.add style (some owner)) _ :=
        moves_of_hold (Holdings.getElem?_add_fresh hs style _) he
      refine ⟨hs.fresh, (Except.ok.inj hres).symm, ?_, hm.after, fun h' hh' hne => ?_⟩
      · rw [← hm.before, Holdings.holders_add]
      · rw [hm.others h' hh' hne, Holdings.holders_add]
  | register h =>
    obtain ⟨holding, hh, -⟩ := hi.returned h (known h rfl)
    rcases acquire_cases (r := r) hh with ⟨r', -, hc⟩ | ⟨err, hc⟩
    · simp only [Call.perform, Change.map, hc] at he hres ⊢
      exact ⟨(Except.ok.inj hres).symm, moves_of_hold hh he⟩
    · simp [Call.perform, Change.map, hc] at he
  | unregister h =>
    obtain ⟨holding, hh, -⟩ := hi.returned h (known h rfl)
    obtain ⟨hok, hcase⟩ := release_cases (r := r) hh
    rcases hcase with ⟨-, -, hev, -⟩ | ⟨n, -, hn, -, hhs, hev, -⟩
    · simp [Call.perform, Change.map, hev] at he
    · obtain rfl : n = 0 := by
        by_cases h0 : n = 0
        · exact h0
        · simp [Call.perform, Change.map, hev, h0] at he
      simp only [Call.perform, Change.map, hhs, hok] at hres ⊢
      refine ⟨(Except.ok.inj hres).symm, ?_, Holdings.holders_setHolders_self 0 hh,
        fun h' _ hne => Holdings.holders_setHolders_other hs 0 hne⟩
      rw [Holdings.holders_of_getElem? hh, hn]
  | clear => cases he

/-- What happens to other styles does not undo it. -/
theorem Call.Flips.spared {c : Call} {yielded : Option Handle} {hs'' : Holdings}
    (hf : c.Flips yielded history hs hs') (hy : ∀ h, yielded = some h → history.Returned h)
    (known : ∀ h, c.subject? = some h → history.Returned h)
    (hspared : history.Spares hs' hs'') : c.Flips yielded history hs hs'' := by
  cases c with
  | compile q =>
    obtain ⟨h, rfl, hm⟩ := hf
    exact ⟨h, rfl, hm.spared (hy h rfl) hspared⟩
  | register h => exact ⟨hf.1, hf.2.spared (known h rfl) hspared⟩
  | unregister h => exact ⟨hf.1, hf.2.spared (known h rfl) hspared⟩
  | clear => exact hf

end Flips

end Registry

namespace Host

open Registry

/-- The same host where nobody listens. -/
def State.unheard (s : State) : State := { s with buses := [] }

/-- Where nobody listens a call comes to its change and to the result of that. -/
theorem run_commit_unheard {α : Type} (react : List Command → Run Unit) {s : State}
    {id : RegistryId} {r : Registry} {bus : BusId} (hreg : s.registries[id]? = some (r, bus))
    (change : Registry → Holdings → Change α) :
    (commit react id change).run s.unheard =
      ((change r s.holdings).result.mapError .ofRefusal,
        s.unheard.committed id bus (change r s.holdings)) := by
  have hrun := run_commit react (s := s.unheard) hreg change
  rw [hrun, show s.unheard.holdings = s.holdings from rfl]
  cases hres : (change r s.holdings).result with
  | error e => rfl
  | ok a => cases hev : (change r s.holdings).event <;> rfl

/-- **A call that fails changes nothing or is complete.** It changes nothing, and nobody is told
anything, if it fails of itself, as it does where nobody listens. Otherwise a listener failed; then
the registry and the styles it has handed out are what the call leaves where nobody listens, and the
difference is that the call gave its style the first holder or took the last one from it. -/
theorem FallibleRun.unchanged_or_complete {react : List Command → Run Unit} {id : RegistryId}
    {s₀ s s' : State} {r₀ : Registry} {bus : BusId} {history : History} {f : Failure}
    (hreg : s₀.registries[id]? = some (r₀, bus)) (hempty : r₀.entries = [])
    (hr : FallibleRun react id s₀ history s) (c : Call)
    (known : ∀ h, c.subject? = some h → history.Returned h)
    (spared : ∀ e ls t, Tells id c s e ls t →
      KeepAway react id (history ++ [s.entry react id c]) e ls t)
    (hf : (commit react id (c.perform id)).run s = (.error f, s')) :
    (((commit react id (c.perform id)).run s.unheard).1 = .error f ∧
      s'.registries = s.registries ∧ s'.holdings = s.holdings ∧ s'.calls = s.calls) ∨
    ∃ yielded, ((commit react id (c.perform id)).run s.unheard).1 = .ok yielded ∧
      Away id (history ++ [s.entry react id c])
        ((commit react id (c.perform id)).run s.unheard).2 s' ∧
      c.Flips yielded (history ++ [s.entry react id c]) s.holdings s'.holdings := by
  obtain ⟨r, hregs, hrun⟩ := hr.toRun hreg
  have hi := hrun.followed hempty
  have haway := away_commit hregs spared
  rw [hf] at haway
  rw [run_commit_unheard react hregs]
  rcases commit_cases react hregs c with ⟨e, hres, hcommit⟩ | ⟨a, hres, hcommit | htold⟩
  · obtain ⟨hreg', hhs', -⟩ := Call.unchanged_of_error id c hres
    rw [hf] at hcommit
    obtain ⟨hfail, rfl⟩ := Prod.mk.inj hcommit
    refine .inl ⟨?_, State.registries_committed_self hregs hreg', hhs', rfl⟩
    rw [hres, hfail]
    rfl
  · rw [hf] at hcommit
    cases (Prod.mk.inj hcommit).1
  · obtain ⟨e, ls, ⟨r', bus', b, hregs', hev, -, -, -⟩, -⟩ := htold
    obtain ⟨rfl, rfl⟩ := Prod.mk.inj (Option.some.inj (hregs.symm.trans hregs'))
    refine .inr ⟨a, by rw [hres]; rfl, ⟨haway.registry, haway.styles⟩, ?_⟩
    refine (hi.flips id known hev hres _).spared ?_ ?_ haway.styles
    · rintro h rfl
      refine ⟨s.entry react id c, List.mem_append_right _ (List.mem_singleton.2 rfl), ?_⟩
      rw [State.entry_eq react hregs]
      simp [Entry.yields, Entry.of, hres, Except.toOption]
    · exact fun h hh => History.returned_append_iff.2 (.inl (known h hh))

/-- A host with one registry and one listener that fails at every event. -/
def oneFailing : State :=
  { registries := [({}, 0)]
    buses := [⟨[0], []⟩]
    listeners := [{ name := "all".toList, reaction := [.fail []], limit := none }] }

/-- What compiling a style comes to in such a host. -/
def compiledAmongFailing : Except Failure (Option Handle) × State :=
  (commit (reactWith 1) 0 (Call.perform 0 (.compile { source := [] }))).run oneFailing

/-- The failure that a call ended in. -/
def failure? {α : Type} : Except Failure α → Option Failure
  | .error f => some f
  | .ok _ => none

theorem failure?_eq_some {α : Type} {x : Except Failure α} {f : Failure} :
    failure? x = some f ↔ x = .error f := by
  cases x <;> simp [failure?]

theorem error_compiledAmongFailing : compiledAmongFailing.1 = .error (.deliberate []) :=
  failure?_eq_some.1 (by decide +kernel)

theorem keepAway_oneFailing (c : Call) (history : History) (e : Event) (ls : List ListenerId)
    (t : State) (h : Tells 0 c oneFailing e ls t) : KeepAway (reactWith 1) 0 history e ls t := by
  obtain ⟨r, bus, b, hreg, -, hb, rfl, rfl⟩ := h
  obtain ⟨rfl, rfl⟩ := Prod.mk.inj (Option.some.inj hreg)
  obtain rfl := Option.some.inj hb
  exact ⟨⟨rfl, fun _ _ => rfl⟩, fun _ _ => trivial⟩

/-- The listener fails after the style was stored and counted. -/
theorem complete_among_failing :
    (∀ e ls t, Tells 0 (.compile { source := [] }) oneFailing e ls t → KeepAway (reactWith 1) 0
      ([] ++ [oneFailing.entry (reactWith 1) 0 (.compile { source := [] })]) e ls t) ∧
    compiledAmongFailing.1 = .error (.deliberate []) ∧
    Away 0 ([] ++ [oneFailing.entry (reactWith 1) 0 (.compile { source := [] })])
      ((commit (reactWith 1) 0 (Call.perform 0 (.compile { source := [] }))).run
        oneFailing.unheard).2 compiledAmongFailing.2 ∧
    Call.Flips (.compile { source := [] }) (some 0)
      ([] ++ [oneFailing.entry (reactWith 1) 0 (.compile { source := [] })])
      oneFailing.holdings compiledAmongFailing.2.holdings := by
  have hfails : compiledAmongFailing = (.error (.deliberate []), compiledAmongFailing.2) :=
    Prod.ext error_compiledAmongFailing rfl
  have hyields : ((commit (reactWith 1) 0 (Call.perform 0 (.compile { source := [] }))).run
      oneFailing.unheard).1.toOption = some (some 0) := by decide +kernel
  refine ⟨keepAway_oneFailing _ _, error_compiledAmongFailing, ?_⟩
  rcases FallibleRun.unchanged_or_complete rfl rfl .start (.compile { source := [] }) nofun
    (keepAway_oneFailing _ _) hfails with ⟨hown, -⟩ | ⟨yielded, hown, haway, hflips⟩
  · rw [hown] at hyields
    cases hyields
  · rw [hown] at hyields
    obtain rfl : yielded = some 0 := Option.some.inj hyields
    exact ⟨haway, hflips⟩

/-- A call that fails may change what is stored and counted: compiling among listeners that fail
stores the style and counts a holder, although nobody gets it. -/
theorem compile_kept_by_failing : compiledAmongFailing.1 = .error (.deliberate []) ∧
    (oneFailing.registries.map (·.1.handles) = [[]] ∧ oneFailing.holdings.holders 0 = 0) ∧
    compiledAmongFailing.2.registries.map (·.1.handles) = [[0]] ∧
      compiledAmongFailing.2.holdings.holders 0 = 1 :=
  ⟨error_compiledAmongFailing, by decide +kernel, by decide +kernel, by decide +kernel⟩

end Host

end ScopedCss
