/-
What a call on a registry comes to in a host. The change is made first (`State.committed`); then its
event goes to the listeners on the bus, one after the other. A listener may do what it likes, such
as subscribe or unsubscribe, itself or others, or call another registry: it keeps `Away` as long as
the registry and the styles it has handed out stay as they are.

`KeepAway` is said of listeners that may fail besides, `Attend` of those that do not, and both only of
the states in which they are told. `away_commit`: then the change is kept, however the call ends.

`State.entry` is the record of a call: what somebody hears of it who listens on the bus of the registry
and does nothing.
-/
import ScopedCss.Host.Session
import ScopedCss.Proofs.Registry.Run

namespace ScopedCss.Host

open Registry

theorem run_bind {α β : Type} (x : Run α) (f : α → Run β) (s : State) :
    (x >>= f).run s =
      match x.run s with
      | (.ok a, s') => (f a).run s'
      | (.error e, s') => (.error e, s') := by
  simp only [ExceptT.run, bind, ExceptT.bind, ExceptT.mk, StateT.bind]
  rcases x s with ⟨_ | _, _⟩ <;> rfl

@[simp] theorem run_get (s : State) : (get : Run State).run s = (.ok s, s) := rfl

@[simp] theorem run_modify (f : State → State) (s : State) :
    (modify f : Run PUnit).run s = (.ok ⟨⟩, f s) := rfl

@[simp] theorem run_pure {α : Type} (a : α) (s : State) :
    (pure a : Run α).run s = (.ok a, s) := rfl

/-! ### The change and its event -/

/-- The host with a change made to its registry `id` on `bus`, before anybody is told. -/
def State.committed {α : Type} (s : State) (id : RegistryId) (bus : BusId) (c : Change α) :
    State :=
  { s with
    registries := s.registries.set id (c.registry, bus)
    holdings := c.holdings
    log := c.log.reverse ++ s.log }

theorem State.registries_committed {α : Type} {s : State} {id : RegistryId} {r : Registry}
    {bus : BusId} (hreg : s.registries[id]? = some (r, bus)) (c : Change α) :
    (s.committed id bus c).registries[id]? = some (c.registry, bus) := by
  have hlt := (List.getElem?_eq_some_iff.1 hreg).1
  simp [committed, hlt]

/-- A change that leaves its registry as it was leaves all registries so. -/
theorem State.registries_committed_self {α : Type} {s : State} {id : RegistryId} {r : Registry}
    {bus : BusId} (hreg : s.registries[id]? = some (r, bus)) {c : Change α} (hc : c.registry = r) :
    (s.committed id bus c).registries = s.registries := by
  obtain ⟨hlt, heq⟩ := List.getElem?_eq_some_iff.1 hreg
  rw [committed, hc, ← heq]
  exact List.set_getElem_self hlt

/-- The host at the moment at which a listener is called. -/
def State.noted (s : State) (l : ListenerId) (listener : Listener) (e : Event) : State :=
  { s with
    calls := (listener.name, e) :: s.calls
    listeners := s.listeners.set l { listener with calls := listener.calls + 1 } }

section

variable {react : List Command → Run Unit} {s s' : State} {e : Event}

theorem run_notify {l : ListenerId} {listener : Listener}
    (found : s.listeners[l]? = some listener) :
    (notify react e l).run s =
      (if listener.isActive then react listener.reaction else pure ()).run
        (s.noted l listener e) := by
  simp only [notify, run_bind, run_get, found, run_modify]
  rfl

/-- Listeners are told one after the other, up to the first that fails. -/
theorem run_forM_notify (l : ListenerId) (ls : List ListenerId) :
    ((l :: ls).forM (notify react e)).run s =
      (notify react e l >>= fun _ => ls.forM (notify react e)).run s := rfl

end

section

variable {α : Type} (react : List Command → Run Unit) {id : RegistryId} {s : State} {r : Registry}
  {bus : BusId}

/-- A change is made first; then its event is published, if it succeeded and has one. -/
theorem run_commit (hreg : s.registries[id]? = some (r, bus))
    (change : Registry → Holdings → Change α) :
    (commit react id change).run s =
      match (change r s.holdings).result with
      | .error e => (.error (.ofRefusal e), s.committed id bus (change r s.holdings))
      | .ok a =>
        ((match (change r s.holdings).event with
          | some e => publish react bus e
          | none => pure ()) >>= fun _ => pure a).run
            (s.committed id bus (change r s.holdings)) := by
  simp only [commit, registryAt, writeLog, run_bind, run_get, run_pure, run_modify, hreg,
    Option.getD_some]
  cases hres : (change r s.holdings).result with
  | error e => rfl
  | ok a =>
    cases hev : (change r s.holdings).event with
    | none => rfl
    | some e => simp only [run_bind, run_pure]; rfl

end

/-- The call `c` on the registry `id` tells the listeners `ls` of `e`, once the host is `t`. -/
def Tells (id : RegistryId) (c : Call) (s : State) (e : Event) (ls : List ListenerId)
    (t : State) : Prop :=
  ∃ r bus b, s.registries[id]? = some (r, bus) ∧ (c.perform id r s.holdings).event = some e ∧
    s.buses[bus]? = some b ∧ ls = b.audience e ∧ t = s.committed id bus (c.perform id r s.holdings)

/-- A call that succeeds of itself comes to its change, and then to what telling of it comes to. -/
theorem commit_cases (react : List Command → Run Unit) {id : RegistryId} {s : State} {r : Registry}
    {bus : BusId} (hreg : s.registries[id]? = some (r, bus)) (c : Call) :
    (∃ e, (c.perform id r s.holdings).result = .error e ∧
      (commit react id (c.perform id)).run s =
        (.error (.ofRefusal e), s.committed id bus (c.perform id r s.holdings))) ∨
    ∃ a, (c.perform id r s.holdings).result = .ok a ∧
      ((commit react id (c.perform id)).run s =
          (.ok a, s.committed id bus (c.perform id r s.holdings)) ∨
        ∃ e ls, Tells id c s e ls (s.committed id bus (c.perform id r s.holdings)) ∧
          (commit react id (c.perform id)).run s =
            (ls.forM (notify react e) >>= fun _ => pure a).run
              (s.committed id bus (c.perform id r s.holdings))) := by
  rw [run_commit react hreg]
  cases hres : (c.perform id r s.holdings).result with
  | error e => exact .inl ⟨e, rfl, rfl⟩
  | ok a =>
    refine .inr ⟨a, rfl, ?_⟩
    cases hev : (c.perform id r s.holdings).event with
    | none => exact .inl rfl
    | some e =>
      have hbuses : (s.committed id bus (c.perform id r s.holdings)).buses = s.buses := rfl
      cases hb : s.buses[bus]? with
      | none =>
        left
        simp [publish, run_bind, hbuses, hb]
      | some b =>
        refine .inr ⟨e, b.audience e, ⟨r, bus, b, hreg, hev, hb, rfl, rfl⟩, ?_⟩
        simp only [publish, run_bind, run_get, hbuses, hb, run_pure]

/-! ### Listeners that keep away -/

/-- What happens elsewhere: the registry `id` stays as it is, and so does every style that it has
handed out, with its holders. -/
structure Away (id : RegistryId) (history : History) (s s' : State) : Prop where
  registry : s'.registries[id]? = s.registries[id]?
  styles : history.Spares s.holdings s'.holdings

theorem Away.refl (id : RegistryId) (history : History) (s : State) : Away id history s s :=
  ⟨rfl, fun _ _ => rfl⟩

theorem Away.trans {id : RegistryId} {history : History} {s t u : State} (h : Away id history s t)
    (h' : Away id history t u) : Away id history s u :=
  ⟨h'.registry.trans h.registry, fun x hx => (h'.styles x hx).trans (h.styles x hx)⟩

/-- Of the listeners of a list, told of an event one after the other, each that is told keeps away.
It may fail, and then no further one is told. -/
def KeepAway (react : List Command → Run Unit) (id : RegistryId) (history : History) (e : Event) :
    List ListenerId → State → Prop
  | [], _ => True
  | l :: ls, s =>
    Away id history s ((notify react e l).run s).2 ∧
      ∀ t, (notify react e l).run s = (.ok (), t) → KeepAway react id history e ls t

/-- The listeners of a list, told of an event one after the other, neither fail nor call back. -/
def Attend (react : List Command → Run Unit) (id : RegistryId) (history : History) (e : Event) :
    List ListenerId → State → Prop
  | [], _ => True
  | l :: ls, s =>
    ∃ t, (notify react e l).run s = (.ok (), t) ∧ Away id history s t ∧
      Attend react id history e ls t

section Telling

variable {react : List Command → Run Unit} {id : RegistryId} {history : History} {e : Event}
  {ls : List ListenerId} {s : State}

theorem KeepAway.away (h : KeepAway react id history e ls s) :
    Away id history s ((ls.forM (notify react e)).run s).2 := by
  induction ls generalizing s with
  | nil => exact .refl id history s
  | cons l ls ih =>
    obtain ⟨hfirst, hrest⟩ := h
    rw [run_forM_notify, run_bind]
    rcases hnotify : (notify react e l).run s with ⟨_ | _, t⟩ <;> rw [hnotify] at hfirst
    · exact hfirst
    · exact hfirst.trans (ih (hrest t hnotify))

theorem Attend.keepAway (h : Attend react id history e ls s) :
    KeepAway react id history e ls s := by
  induction ls generalizing s with
  | nil => trivial
  | cons l ls ih =>
    obtain ⟨t, hnotify, haway, hrest⟩ := h
    refine ⟨by rw [hnotify]; exact haway, fun t' ht' => ?_⟩
    rw [hnotify] at ht'
    obtain rfl := (Prod.mk.inj ht').2
    exact ih hrest

theorem Attend.succeeds (h : Attend react id history e ls s) :
    ∃ t, (ls.forM (notify react e)).run s = (.ok (), t) := by
  induction ls generalizing s with
  | nil => exact ⟨s, rfl⟩
  | cons l ls ih =>
    obtain ⟨t, hnotify, -, hrest⟩ := h
    rw [run_forM_notify, run_bind, hnotify]
    exact ih hrest

end Telling

section Commit

variable {react : List Command → Run Unit} {id : RegistryId} {history : History} {s : State}
  {r : Registry} {bus : BusId} {c : Call}

/-- Among listeners that keep away the change that a call makes is kept, however the call ends. -/
theorem away_commit (hreg : s.registries[id]? = some (r, bus))
    (hspared : ∀ e ls t, Tells id c s e ls t → KeepAway react id history e ls t) :
    Away id history (s.committed id bus (c.perform id r s.holdings))
      ((commit react id (c.perform id)).run s).2 := by
  rcases commit_cases react hreg c with ⟨e, -, hrun⟩ | ⟨a, -, hrun | ⟨e, ls, htells, hrun⟩⟩
  · rw [hrun]
    exact .refl ..
  · rw [hrun]
    exact .refl ..
  · have haway := (hspared e ls _ htells).away
    rw [hrun, run_bind]
    rcases hforM : (ls.forM (notify react e)).run (s.committed id bus (c.perform id r s.holdings))
      with ⟨_ | _, t⟩ <;> rw [hforM] at haway <;> exact haway

/-- Among listeners that do not fail a call comes to the result of its change. -/
theorem outcome_commit (hreg : s.registries[id]? = some (r, bus))
    (hattend : ∀ e ls t, Tells id c s e ls t → Attend react id history e ls t) :
    ((commit react id (c.perform id)).run s).1 =
      (c.perform id r s.holdings).result.mapError .ofRefusal := by
  rcases commit_cases react hreg c with ⟨e, hres, hrun⟩ | ⟨a, hres, hrun | ⟨e, ls, htells, hrun⟩⟩
  · rw [hrun, hres]
    rfl
  · rw [hrun, hres]
    rfl
  · obtain ⟨t, hforM⟩ := (hattend e ls _ htells).succeeds
    rw [hrun, run_bind, hforM, hres]
    rfl

end Commit

/-! ### Records of calls -/

/-- The host where one more listener, and nobody else, is told of what is published on the bus of the
registry `id`. That one does nothing, so what it is told of comes from the registry itself. -/
def State.overheard (s : State) (id : RegistryId) : State :=
  { s with
    buses := List.replicate ((s.registries[id]?.map (·.2)).getD 0) {} ++
      [{ toAll := [s.listeners.length] }]
    listeners := s.listeners ++ [{ name := [], reaction := [], limit := some 0 }]
    calls := []
    log := [] }

/-- The record of a call on the registry `id`: what is heard of it on its bus where somebody only
listens, what it logs and the style that it yields there. -/
def State.entry (react : List Command → Run Unit) (id : RegistryId) (s : State) (c : Call) : Entry :=
  let (outcome, t) := (commit react id (c.perform id)).run (s.overheard id)
  ⟨c, (t.calls.map (·.2)).reverse, t.log.reverse, outcome.toOption.join⟩

/-- What is published is heard once. -/
theorem run_publish_overheard (react : List Command → Run Unit) {id : RegistryId} {s : State}
    {r : Registry} {bus : BusId} (hreg : s.registries[id]? = some (r, bus)) {α : Type}
    (c : Change α) (e : Event) :
    (publish react bus e).run ((s.overheard id).committed id bus c) =
      (.ok (), ((s.overheard id).committed id bus c).noted s.listeners.length
        { name := [], reaction := [], limit := some 0 } e) := by
  have hbus : ((s.overheard id).committed id bus c).buses[bus]? =
      some { toAll := [s.listeners.length] } := by
    simp [State.committed, State.overheard, hreg]
  have hfound : ((s.overheard id).committed id bus c).listeners[s.listeners.length]? =
      some { name := [], reaction := [], limit := some 0 } := by
    simp [State.committed, State.overheard]
  have haudience : Bus.audience { toAll := [s.listeners.length] } e = [s.listeners.length] := rfl
  simp only [publish, run_bind, run_get, hbus, haudience, run_forM_notify, run_notify hfound]
  rfl

/-- Every event of a registry is heard on its bus, once. -/
theorem State.entry_eq (react : List Command → Run Unit) {id : RegistryId} {s : State}
    {r : Registry} {bus : BusId} (hreg : s.registries[id]? = some (r, bus)) (c : Call) :
    s.entry react id c = .of c (c.perform id r s.holdings) := by
  have hreg' : (s.overheard id).registries[id]? = some (r, bus) := hreg
  have hrun := run_commit react hreg' (c.perform id)
  have hhs : (s.overheard id).holdings = s.holdings := rfl
  rw [hhs] at hrun
  cases hres : (c.perform id r s.holdings).result with
  | error e =>
    obtain ⟨-, -, hev⟩ := Call.unchanged_of_error id c hres
    simp only [hres] at hrun
    simp only [entry, hrun]
    simp [Entry.of, hres, hev, committed, overheard, Except.toOption]
  | ok a =>
    cases hev : (c.perform id r s.holdings).event with
    | none =>
      simp only [hres, hev, pure_bind, run_pure] at hrun
      simp only [entry, hrun]
      simp [Entry.of, hres, hev, committed, overheard, Except.toOption]
    | some e =>
      simp only [hres, hev, run_bind, run_publish_overheard react hreg, run_pure] at hrun
      simp only [entry, hrun]
      simp [Entry.of, hres, hev, committed, overheard, noted, Except.toOption]

end ScopedCss.Host
