/-
The life of styles in a host. A host calls one of its registries, again and again, on requests and
on any style that it ever got from there, while listeners are told of the events. Meanwhile it may do
whatever else it likes with other registries, styles and listeners.

`CallRun.inOrder`: after every call the stored styles, the holders of every handle and the events
published so far agree with the calls that were made. `CallRun.known_iff`: where the registry is
cleared too, the host knows of every style in use but those that came back unannounced.
-/
import ScopedCss.Proofs.Host.Listening
import ScopedCss.Proofs.Registry.Clearing

namespace ScopedCss.Host

open Registry

/-- The record of a call that ends in `outcome`. -/
def State.record (react : List Command → Run Unit) (id : RegistryId) (s : State) (c : Call)
    (outcome : Except Failure (Option Handle)) : Entry :=
  { s.entry react id c with handle := outcome.toOption.join }

@[simp] theorem State.call_record (react : List Command → Run Unit) (id : RegistryId) (s : State)
    (c : Call) (outcome : Except Failure (Option Handle)) :
    (s.record react id c outcome).call = c := rfl

/-- Runs of calls on the registry `id` of a host, from the host `s₀` on, among listeners that keep
away but may fail. A call on a style is on one that was handed out before, whatever has become of it;
a call that a listener fails is recorded as what it came to before. -/
inductive FallibleRun (react : List Command → Run Unit) (id : RegistryId) (s₀ : State) :
    History → State → Prop
  | start : FallibleRun react id s₀ [] s₀
  | aside {history : History} {s s' : State} (before : FallibleRun react id s₀ history s)
      (away : Away id history s s') : FallibleRun react id s₀ history s'
  | call {history : History} {s s' : State} {outcome : Except Failure (Option Handle)} (c : Call)
      (before : FallibleRun react id s₀ history s)
      (known : ∀ h, c.subject? = some h → history.Returned h)
      (ran : (commit react id (c.perform id)).run s = (outcome, s'))
      (spared : ∀ e ls t, Tells id c s e ls t →
        KeepAway react id (history ++ [s.entry react id c]) e ls t) :
      FallibleRun react id s₀ (history ++ [s.entry react id c]) s'

/-- Runs of calls among listeners that neither fail nor call back. -/
inductive CallRun (react : List Command → Run Unit) (id : RegistryId) (s₀ : State) :
    History → State → Prop
  | start : CallRun react id s₀ [] s₀
  | aside {history : History} {s s' : State} (before : CallRun react id s₀ history s)
      (away : Away id history s s') : CallRun react id s₀ history s'
  | call {history : History} {s s' : State} {outcome : Except Failure (Option Handle)} (c : Call)
      (before : CallRun react id s₀ history s)
      (known : ∀ h, c.subject? = some h → history.Returned h)
      (ran : (commit react id (c.perform id)).run s = (outcome, s'))
      (attended : ∀ e ls t, Tells id c s e ls t →
        Attend react id (history ++ [s.record react id c outcome]) e ls t) :
      CallRun react id s₀ (history ++ [s.record react id c outcome]) s'

section Runs

variable {react : List Command → Run Unit} {id : RegistryId} {s₀ s s' : State} {r₀ r : Registry}
  {bus : BusId} {history : History}

/-- Where no listener fails, a call ends in what it came to. -/
theorem State.record_eq {c : Call} {outcome : Except Failure (Option Handle)}
    (hreg : s.registries[id]? = some (r, bus))
    (ran : (commit react id (c.perform id)).run s = (outcome, s'))
    (attended : ∀ e ls t, Tells id c s e ls t → Attend react id history e ls t) :
    s.record react id c outcome = s.entry react id c := by
  have houtcome := outcome_commit hreg attended
  simp only [ran] at houtcome
  rw [record, State.entry_eq react hreg, houtcome]
  cases hres : (c.perform id r s.holdings).result <;>
    simp [Entry.of, hres, Except.mapError, Except.toOption]

/-- The calls of a host are a run of its registry, those that a listener failed included. -/
theorem FallibleRun.toRun (hreg : s₀.registries[id]? = some (r₀, bus))
    (hr : FallibleRun react id s₀ history s) :
    ∃ r, s.registries[id]? = some (r, bus) ∧
      Registry.Run id r₀ s₀.holdings history r s.holdings := by
  induction hr with
  | start => exact ⟨r₀, hreg, .start⟩
  | aside _ away ih =>
    obtain ⟨r, hregs, hrun⟩ := ih
    exact ⟨r, away.registry.trans hregs, hrun.elsewhere away.styles⟩
  | @call history s s' outcome c _ known ran spared ih =>
    obtain ⟨r, hregs, hrun⟩ := ih
    have haway := away_commit hregs spared
    rw [ran, State.entry_eq react hregs] at haway
    rw [State.entry_eq react hregs]
    exact ⟨_, haway.registry.trans (State.registries_committed hregs _),
      (Registry.Run.call c hrun known).elsewhere haway.styles⟩

theorem CallRun.toFallible (hreg : s₀.registries[id]? = some (r₀, bus))
    (hr : CallRun react id s₀ history s) : FallibleRun react id s₀ history s := by
  induction hr with
  | start => exact .start
  | aside _ away ih => exact ih.aside away
  | @call history s s' outcome c _ known ran attended ih =>
    obtain ⟨r, hregs, -⟩ := ih.toRun hreg
    rw [State.record_eq hregs ran attended] at attended ⊢
    exact .call c ih known ran fun e ls t htells => (attended e ls t htells).keepAway

/-- The next call of a run. -/
theorem CallRun.next (hr : CallRun react id s₀ history s) (c : Call)
    (known : ∀ h, c.subject? = some h → history.Returned h)
    (attended : ∀ history e ls t, Tells id c s e ls t → Attend react id history e ls t) :
    ∃ s', CallRun react id s₀
        (history ++ [s.record react id c ((commit react id (c.perform id)).run s).1]) s' ∧
      s' = ((commit react id (c.perform id)).run s).2 :=
  ⟨_, .call c hr known rfl (attended _), rfl⟩

end Runs

/-- A host whose registry `r`, of number `id`, agrees with the calls made on it. -/
structure InOrder (react : List Command → Run Unit) (id : RegistryId) (history : History)
    (s : State) (r : Registry) : Prop where
  /-- Styles are stored under their own fingerprints, each once. -/
  keyed : (r.entries.map (·.1)).Nodup ∧ ∀ key h, (key, h) ∈ r.entries →
    ∃ holding, s.holdings[h]? = some holding ∧ holding.style.fingerprint = key
  /-- A handle that is not the stored one has no holders. -/
  unstored : ∀ h holding, history.Returned h → s.holdings[h]? = some holding →
    r.get? holding.style.fingerprint ≠ some h → holding.holders = 0
  /-- Unless unused styles are kept, every stored style has a holder. -/
  stored : r.config.retainUnused = false → ∀ key h, (key, h) ∈ r.entries →
    1 ≤ s.holdings.holders h
  /-- A handle has as many holders as calls yielded it, less the releases that were not ignored. -/
  counted : ∀ h, history.Returned h →
    s.holdings.holders h + history.released h = history.yielded h
  /-- The events about a fingerprint are first holders and last releases by turns. -/
  turns : ∀ key, Alternating (history.notices key)
  /-- The last of them is a first holder exactly while the style is stored and held. -/
  last : ∀ key, (history.notices key).getLast? = some .registered ↔ Live r s.holdings key
  /-- A call that fails, not by a listener, changes no registry and no count, and nobody hears of
  it. -/
  atomic : ∀ c : Call, (∀ e ls t, Tells id c s e ls t → Attend react id history e ls t) → ∀ f s',
    (commit react id (c.perform id)).run s = (.error f, s') →
      s'.registries = s.registries ∧ s'.holdings = s.holdings ∧ s'.calls = s.calls ∧
        (s.entry react id c).events = []

/-- **A registry stays in order**: whatever calls are made on it, other than clearing it, and
whatever listeners do that neither fail nor call back. -/
theorem CallRun.inOrder {react : List Command → Run Unit} {id : RegistryId} {s₀ s : State}
    {r₀ : Registry} {bus : BusId} {history : History}
    (hreg : s₀.registries[id]? = some (r₀, bus)) (hempty : r₀.entries = [])
    (hr : CallRun react id s₀ history s) (hc : history.WithoutClear) :
    ∃ r, s.registries[id]? = some (r, bus) ∧ r.config = r₀.config ∧
      InOrder react id history s r := by
  obtain ⟨r, hregs, hrun⟩ := (hr.toFallible hreg).toRun hreg
  have hi := hrun.inv hempty hc
  have hget : ∀ {key h}, (key, h) ∈ r.entries → r.get? key = some h :=
    fun hm => Assoc.get?_eq_some_of_mem hi.keys hm
  refine ⟨r, hregs, hrun.settings.1, ?_⟩
  refine
    { keyed := ⟨hi.keys, fun key h hm => (hi.stored key h (hget hm)).2⟩
      unstored := hi.idle
      stored := fun hret key h hm => hi.used hret key h (hget hm)
      counted := hi.counted
      turns := hi.turns
      last := fun key => (hi.turns key).getLast?_eq_registered.trans (hi.odd key)
      atomic := ?_ }
  intro c attended f s' hfails
  rw [State.entry_eq react hregs]
  rcases commit_cases react hregs c with
    ⟨e, hres, hcommit⟩ | ⟨a, hres, -⟩
  · obtain ⟨hreg', hhs', hev⟩ := Call.unchanged_of_error id c hres
    rw [hfails] at hcommit
    obtain ⟨-, rfl⟩ := Prod.mk.inj hcommit
    exact ⟨State.registries_committed_self hregs hreg', hhs', rfl, by simp [Entry.of, hev]⟩
  · have houtcome := outcome_commit hregs attended
    rw [hfails, hres] at houtcome
    cases houtcome

/-- How a host reacts to an event: it runs the commands, as deep as `depth`. -/
def reactWith (depth : Nat) (commands : List Command) : Run Unit :=
  commands.forM fun c => discard (run depth c)

/-- A host with one registry and one listener, which leaves as soon as it is told anything. -/
def oneLeaving : State :=
  { registries := [({}, 0)]
    registryNames := [("main".toList, 0)]
    buses := [⟨[0], []⟩]
    listeners := [{
      name := "all".toList
      reaction := [.unsubscribe "all".toList (.ofRegistry (.named "main".toList))]
      limit := none }]
    listenerNames := [("all".toList, 0)] }

theorem attend_oneLeaving (c : Call) (history : History) (e : Event) (ls : List ListenerId)
    (t : State) (h : Tells 0 c oneLeaving e ls t) : Attend (reactWith 1) 0 history e ls t := by
  obtain ⟨r, bus, b, hreg, -, hb, rfl, rfl⟩ := h
  obtain ⟨rfl, rfl⟩ := Prod.mk.inj (Option.some.inj hreg)
  obtain rfl := Option.some.inj hb
  exact ⟨_, rfl, ⟨rfl, fun _ _ => rfl⟩, trivial⟩

/-- Where nobody listens, nobody fails. -/
theorem attend_of_nobody {react : List Command → Run Unit} {id : RegistryId} {s : State}
    (hs : s.buses = [⟨[], []⟩]) (c : Call) (history : History) (e : Event) (ls : List ListenerId)
    (t : State) (h : Tells id c s e ls t) : Attend react id history e ls t := by
  obtain ⟨r, bus, b, -, -, hb, rfl, -⟩ := h
  have hmem := List.mem_of_getElem? hb
  rw [hs, List.mem_singleton] at hmem
  subst hmem
  trivial

/-- A style that is compiled, released and released once more leaves its registry in order, although
the listener leaves at the first event. -/
theorem inOrder_released_twice : ∃ history s r,
    CallRun (reactWith 1) 0 oneLeaving history s ∧ history.length = 3 ∧
      history.WithoutClear ∧ s.buses = [⟨[], []⟩] ∧ s.registries[0]? = some (r, 0) ∧
      InOrder (reactWith 1) 0 history s r := by
  obtain ⟨s₁, compiled, hs₁⟩ := CallRun.next .start (.compile { source := [] }) nofun
    (attend_oneLeaving (.compile { source := [] }))
  have left₁ : s₁.buses = [⟨[], []⟩] := by
    rw [hs₁]
    decide +kernel
  have returned : ∀ l, History.Returned ([] ++ [oneLeaving.record (reactWith 1) 0
      (.compile { source := [] })
      ((commit (reactWith 1) 0 (Call.perform 0 (.compile { source := [] }))).run oneLeaving).1] ++
        l) 0 :=
    fun l => ⟨_, List.mem_append_left _ List.mem_cons_self, by decide +kernel⟩
  obtain ⟨s₂, released, hs₂⟩ := compiled.next (.unregister 0)
    (by rintro h ⟨⟩; exact returned []) (attend_of_nobody left₁ _)
  have left₂ : s₂.buses = [⟨[], []⟩] := by
    rw [hs₂, hs₁]
    decide +kernel
  obtain ⟨s₃, again, hs₃⟩ := released.next (.unregister 0) (by rintro h ⟨⟩; exact returned _)
    (attend_of_nobody left₂ _)
  have hclear : ∀ a b c, History.WithoutClear ([] ++ [oneLeaving.record (reactWith 1) 0
      (.compile { source := [] }) a] ++ [s₁.record (reactWith 1) 0 (.unregister 0) b] ++
        [s₂.record (reactWith 1) 0 (.unregister 0) c]) := by
    intro a b c e he
    simp only [List.nil_append, List.cons_append, List.mem_cons, List.not_mem_nil, or_false] at he
    rcases he with rfl | rfl | rfl <;> simp
  obtain ⟨r, hr, -, ho⟩ := again.inOrder rfl rfl (hclear _ _ _)
  refine ⟨_, s₃, r, again, rfl, hclear _ _ _, ?_, hr, ho⟩
  rw [hs₃, hs₂, hs₁]
  decide +kernel

/-- **A host knows of the styles in use**, in every run of calls on a registry, clearing it among
them: the last event about a style that is stored and held is that it was registered, except that a
style still held when the registry was cleared, and taken in again after the host had been told that
it is gone, comes back without an event. -/
theorem CallRun.known_iff {react : List Command → Run Unit} {id : RegistryId} {s₀ s : State}
    {r₀ : Registry} {bus : BusId} {history : History}
    (hreg : s₀.registries[id]? = some (r₀, bus)) (hempty : r₀.entries = [])
    (hr : CallRun react id s₀ history s) :
    ∃ r, s.registries[id]? = some (r, bus) ∧
      ∀ key h, r.get? key = some h → 0 < s.holdings.holders h →
        ((history.notices key).getLast? = some .registered ↔ ¬history.Unannounced key h) := by
  obtain ⟨r, hregs, hrun⟩ := (hr.toFallible hreg).toRun hreg
  exact ⟨r, hregs, fun key h hg hpos => (hrun.followed hempty).last_iff hg hpos⟩

/-- A host with one registry and one listener to all of its events, which does nothing. -/
def oneListener : State :=
  { registries := [({}, 0)]
    buses := [⟨[0], []⟩]
    listeners := [{ name := "all".toList, reaction := [], limit := none }] }

/-- Everybody who listens exists. -/
def State.Attended (s : State) : Prop :=
  ∀ b ∈ s.buses, ∀ e, ∀ l ∈ b.audience e, l < s.listeners.length

/-- Listeners that do nothing are told, and nothing else happens. -/
theorem attend_of_passive {id : RegistryId} {history : History} {e : Event} {ls : List ListenerId}
    {s : State} (hs : ∀ l ∈ ls, l < s.listeners.length) :
    Attend (fun _ => pure ()) id history e ls s ∧
      ∃ calls listeners, listeners.length = s.listeners.length ∧
        (ls.forM (notify (fun _ => pure ()) e)).run s =
          (.ok (), { s with calls := calls, listeners := listeners }) := by
  induction ls generalizing s with
  | nil => exact ⟨trivial, s.calls, s.listeners, rfl, rfl⟩
  | cons l ls ih =>
    have hlt := hs l List.mem_cons_self
    have hnotify : (notify (fun _ => pure ()) e l).run s = (.ok (), s.noted l s.listeners[l] e) := by
      rw [run_notify (List.getElem?_eq_getElem hlt), ite_self, run_pure]
    have hlen : (s.noted l s.listeners[l] e).listeners.length = s.listeners.length := by
      simp [State.noted]
    obtain ⟨hrest, calls, listeners, hls, hforM⟩ := ih fun l' hl' => by
      rw [hlen]
      exact hs l' (List.mem_cons_of_mem l hl')
    refine ⟨⟨_, hnotify, ⟨rfl, fun _ _ => rfl⟩, hrest⟩, calls, listeners, hls.trans hlen, ?_⟩
    rw [run_forM_notify, run_bind, hnotify]
    exact hforM

/-- A run of a registry is one of its host, among listeners that do nothing. -/
theorem CallRun.exists_of_run {id : RegistryId} {s₀ : State} {r₀ r : Registry} {bus : BusId}
    {history : History} {hs : Holdings} (hs₀ : s₀.Attended)
    (hreg : s₀.registries[id]? = some (r₀, bus))
    (hr : SoleRun id r₀ s₀.holdings history r hs) :
    ∃ s, CallRun (fun _ => pure ()) id s₀ history s ∧ s.Attended ∧
      s.registries[id]? = some (r, bus) ∧ s.holdings = hs := by
  induction hr with
  | start => exact ⟨s₀, .start, hs₀, hreg, rfl⟩
  | @call history r hs c _ known ih =>
    obtain ⟨s, hrun, hs, hregs, rfl⟩ := ih
    have hlisten : ∀ {e ls t}, Tells id c s e ls t → ∀ l ∈ ls, l < t.listeners.length := by
      rintro e ls t ⟨r', bus', b, -, -, hb, rfl, rfl⟩ l hl
      exact hs b (List.mem_of_getElem? hb) e l hl
    have hattend : ∀ history e ls t, Tells id c s e ls t →
        Attend (fun _ => pure ()) id history e ls t :=
      fun _ _ _ _ htells => (attend_of_passive (hlisten htells)).1
    obtain ⟨s', hrun', hs'⟩ := hrun.next c known hattend
    rw [State.record_eq hregs (Prod.eta _).symm (hattend []), State.entry_eq _ hregs] at hrun'
    refine ⟨s', hrun', ?_⟩
    rcases commit_cases (fun _ => pure ()) hregs c with
      ⟨e, -, hcommit⟩ | ⟨a, -, hcommit | ⟨e, ls, htells, hcommit⟩⟩
    · rw [hs', hcommit]
      exact ⟨hs, State.registries_committed hregs _, rfl⟩
    · rw [hs', hcommit]
      exact ⟨hs, State.registries_committed hregs _, rfl⟩
    · obtain ⟨-, calls, listeners, hlen, hforM⟩ :=
        @attend_of_passive id [] _ _ _ (hlisten htells)
      rw [hs', hcommit, run_bind, hforM]
      refine ⟨fun b hb e l hl => ?_, State.registries_committed hregs _, rfl⟩
      exact Nat.lt_of_lt_of_eq (hs b hb e l hl) hlen.symm

theorem attended_oneListener : oneListener.Attended := by
  intro b hb e l hl
  simp only [oneListener, List.mem_singleton] at hb
  subst hb
  simp only [Bus.audience, List.filter_nil, List.map_nil, List.append_nil,
    List.mem_singleton] at hl
  subst hl
  decide

/-- A style that is compiled, dropped by clearing, compiled again and released; then the first
handle, which is still held, is registered. -/
def clearedCalls : List Call :=
  [.compile { source := [] }, .clear, .compile { source := [] }, .unregister 1, .register 0]

theorem run_clearedCalls (n : Nat) :
    SoleRun 0 {} [] (replay (clearedCalls.take n)).1 (replay (clearedCalls.take n)).2.1
      (replay (clearedCalls.take n)).2.2 := by
  have h₀ : SoleRun 0 {} [] (replay []).1 (replay []).2.1 (replay []).2.2 := .start
  have h₁ := run_replay h₀ (.compile { source := [] }) nofun
  have h₂ := run_replay h₁ .clear nofun
  have h₃ := run_replay h₂ (.compile { source := [] }) nofun
  have h₄ := run_replay h₃ (.unregister 1) (by rintro h ⟨⟩; decide +kernel)
  have h₅ := run_replay h₄ (.register 0) (by rintro h ⟨⟩; decide +kernel)
  match n with
  | 0 => exact .start
  | 1 => exact h₁
  | 2 => exact h₂
  | 3 => exact h₃
  | 4 => exact h₄
  | n + 5 => simpa [clearedCalls] using h₅

/-- Compiled again after clearing, the style is in use under its second handle, and the host was
last told so. -/
theorem known_compiled_again : ∃ history s r,
    CallRun (fun _ => pure ()) 0 oneListener history s ∧ s.registries[0]? = some (r, 0) ∧
      r.get? (Request.fingerprint { source := [] }) = some 1 ∧ 0 < s.holdings.holders 1 ∧
      ¬history.Unannounced (Request.fingerprint { source := [] }) 1 ∧
      (history.notices (Request.fingerprint { source := [] })).getLast? = some .registered := by
  have hreg : oneListener.registries[0]? = some (({} : Registry), 0) := rfl
  obtain ⟨s, hrun, -, hregs, hhs⟩ :=
    CallRun.exists_of_run attended_oneListener hreg (run_clearedCalls 3)
  obtain ⟨r, hr, hknown⟩ := CallRun.known_iff hreg rfl hrun
  obtain ⟨rfl, -⟩ := Prod.mk.inj (Option.some.inj (hregs.symm.trans hr))
  have hget : (replay (clearedCalls.take 3)).2.1.get? (Request.fingerprint { source := [] }) =
      some 1 := by decide +kernel
  have hheld : 0 < s.holdings.holders 1 := by rw [hhs]; decide +kernel
  have hlast : ((replay (clearedCalls.take 3)).1.notices
      (Request.fingerprint { source := [] })).getLast? = some .registered := by decide +kernel
  exact ⟨_, s, _, hrun, hregs, hget, hheld, (hknown _ _ hget hheld).1 hlast, hlast⟩

/-- In the end the style is in use under its first handle, but the host was last told that it is
gone. -/
theorem register_unannounced : ∃ history s r,
    CallRun (fun _ => pure ()) 0 oneListener history s ∧ s.registries[0]? = some (r, 0) ∧
      r.get? (Request.fingerprint { source := [] }) = some 0 ∧ 0 < s.holdings.holders 0 ∧
      (history.notices (Request.fingerprint { source := [] })).getLast? ≠ some .registered := by
  obtain ⟨s, hrun, -, hregs, hhs⟩ :=
    CallRun.exists_of_run attended_oneListener rfl (run_clearedCalls 5)
  refine ⟨_, s, _, hrun, hregs, by decide +kernel, ?_, by decide +kernel⟩
  rw [hhs]
  decide +kernel

end ScopedCss.Host
