/-
Listeners that answer an event with calls of their own. A listener is called while the change that
it is told of is still being published, so what it does comes between the listeners told before it
and those told after.

`Trace` is what happened then: which events were published, and what was published while each
listener reacted. `Calls` are the runs of a host with their traces. `Calls.heard_eq_order_iff`: a
listener is told of the changes in the order in which they were made, exactly if no listener before
it publishes anything by what it does.
-/
import ScopedCss.Proofs.Host.Listening
import ScopedCss.Proofs.Registry.Clearing

namespace ScopedCss

namespace Registry.History

/-- The events of a history, each with the number of the call that brought it about; the first call
has the number `start`. -/
def numbered (start : Nat) : History → List (Nat × Event)
  | [] => []
  | e :: later => e.events.map (start, ·) ++ numbered (start + 1) later

theorem numbered_append (start : Nat) (history later : History) :
    numbered start (history ++ later) =
      numbered start history ++ numbered (start + history.length) later := by
  induction history generalizing start with
  | nil => rfl
  | cons e history ih =>
    simp [numbered, ih, Nat.add_assoc, Nat.add_comm 1]

theorem le_of_mem_numbered {start : Nat} {history : History} {x : Nat × Event}
    (hx : x ∈ numbered start history) : start ≤ x.1 := by
  induction history generalizing start with
  | nil => cases hx
  | cons e history ih =>
    simp only [numbered, List.mem_append, List.mem_map] at hx
    rcases hx with ⟨ev, -, rfl⟩ | hx
    · exact Nat.le_refl start
    · exact Nat.le_of_succ_le (ih hx)

/-- Where a call brings about one event at most, the numbers tell them apart. -/
theorem nodup_numbered (start : Nat) {history : History}
    (hone : ∀ e ∈ history, e.events.length ≤ 1) : (numbered start history).Nodup := by
  induction history generalizing start with
  | nil => exact List.nodup_nil
  | cons e history ih =>
    have hfirst : (e.events.map (start, ·)).Nodup := by
      match e.events, hone e List.mem_cons_self with
      | [], _ => exact List.nodup_nil
      | [ev], _ => simp
    refine List.nodup_append.2
      ⟨hfirst, ih (start + 1) fun e' he' => hone e' (List.mem_cons_of_mem e he'), ?_⟩
    rintro x hx y hy rfl
    obtain ⟨ev, -, rfl⟩ := List.mem_map.1 hx
    exact Nat.not_succ_le_self start (le_of_mem_numbered hy)

theorem map_snd_numbered (start : Nat) (history : History) :
    (numbered start history).map (·.2) = history.flatMap (·.events) := by
  induction history generalizing start with
  | nil => rfl
  | cons e history ih => simp [numbered, ih, Function.comp_def]

end Registry.History

namespace Host

open Registry

mutual

/-- What a series of calls published, in the order of the changes. The number of an event is that
of the call that brought it about. -/
inductive Trace where
  | done
  | published (number : Nat) (event : Event) (reactions : Reactions) (next : Trace)

/-- For each listener told of an event, in order, what was published while it reacted. -/
inductive Reactions where
  | done
  | reacted (during : Trace) (next : Reactions)

end

/-- How many listeners were told. -/
def Reactions.length : Reactions → Nat
  | .done => 0
  | .reacted _ next => next.length + 1

mutual

/-- The events in the order of their changes. -/
def Trace.order : Trace → List (Nat × Event)
  | .done => []
  | .published n e reactions next => (n, e) :: (reactions.order ++ next.order)

def Reactions.order : Reactions → List (Nat × Event)
  | .done => []
  | .reacted during next => during.order ++ next.order

end

mutual

/-- The calls of listeners in the order in which they happen: the place of the listener among those
told, and what it is told of. -/
def Trace.calls : Trace → List (Nat × Nat × Event)
  | .done => []
  | .published n e reactions next => reactions.calls (n, e) 0 ++ next.calls

/-- The calls of the listeners from `place` on about `x`, with all that happens in between. -/
def Reactions.calls (x : Nat × Event) (place : Nat) : Reactions → List (Nat × Nat × Event)
  | .done => []
  | .reacted during next => (place, x) :: (during.calls ++ next.calls x (place + 1))

end

/-- What the listener at a place is told of, in order. -/
def Trace.heard (t : Trace) (i : Nat) : List (Nat × Event) :=
  (t.calls.filter (·.1 = i)).map (·.2)

/-- What the listener at place `i` is told of while those from `place` on are told of `x`. -/
def Reactions.heard (rs : Reactions) (x : Nat × Event) (place i : Nat) : List (Nat × Event) :=
  ((rs.calls x place).filter (·.1 = i)).map (·.2)

mutual

/-- Every event goes to `m` listeners. -/
def Trace.Reaches (m : Nat) : Trace → Prop
  | .done => True
  | .published _ _ reactions next =>
    reactions.length = m ∧ reactions.Reaches m ∧ next.Reaches m

def Reactions.Reaches (m : Nat) : Reactions → Prop
  | .done => True
  | .reacted during next => during.Reaches m ∧ next.Reaches m

end

mutual

/-- No listener before place `i` publishes anything by what it does. -/
def Trace.Undisturbed (i : Nat) : Trace → Prop
  | .done => True
  | .published _ _ reactions next => reactions.Undisturbed i 0 ∧ next.Undisturbed i

/-- The listeners from `place` on leave the one at place `i` undisturbed. -/
def Reactions.Undisturbed (i place : Nat) : Reactions → Prop
  | .done => True
  | .reacted during next =>
    (if place < i then during = .done else during.Undisturbed i) ∧ next.Undisturbed i (place + 1)

end

/-! ### What a listener is told of -/

@[simp] theorem Trace.heard_done (i : Nat) : Trace.done.heard i = [] := rfl

theorem Trace.heard_published (n : Nat) (e : Event) (rs : Reactions) (next : Trace) (i : Nat) :
    (Trace.published n e rs next).heard i = rs.heard (n, e) 0 i ++ next.heard i := by
  simp [heard, Reactions.heard, calls, List.filter_append]

@[simp] theorem Reactions.heard_done (x : Nat × Event) (place i : Nat) :
    Reactions.done.heard x place i = [] := rfl

theorem Reactions.heard_reacted (during : Trace) (next : Reactions) (x : Nat × Event)
    (place i : Nat) :
    (Reactions.reacted during next).heard x place i =
      (if place = i then [x] else []) ++ (during.heard i ++ next.heard x (place + 1) i) := by
  by_cases h : place = i <;> simp [heard, Trace.heard, calls, List.filter_append, h]

mutual

/-- A listener is told of every event once. -/
theorem Trace.heard_perm {m i : Nat} (hi : i < m) :
    (t : Trace) → t.Reaches m → (t.heard i).Perm t.order
  | .done, _ => .nil
  | .published n e rs next, ⟨hlen, hrs, hnext⟩ => by
    rw [Trace.heard_published, Trace.order, ← List.cons_append]
    refine .append ?_ (next.heard_perm hi hnext)
    have h := rs.heard_perm hi (n, e) 0 hrs
    rwa [if_pos ⟨Nat.zero_le i, by omega⟩] at h

theorem Reactions.heard_perm {m i : Nat} (hi : i < m) (x : Nat × Event) (place : Nat) :
    (rs : Reactions) → rs.Reaches m →
      (rs.heard x place i).Perm
        ((if place ≤ i ∧ i < place + rs.length then [x] else []) ++ rs.order)
  | .done, _ => by
    rw [if_neg (by simp only [Reactions.length]; omega)]
    exact .nil
  | .reacted during next, ⟨hd, hn⟩ => by
    have ihd := during.heard_perm hi hd
    have ihn := next.heard_perm hi x (place + 1) hn
    rw [Reactions.heard_reacted, Reactions.order, Reactions.length]
    by_cases hp : place = i
    · rw [if_neg (by omega)] at ihn
      rw [if_pos hp, if_pos (by omega)]
      exact (ihd.append ihn).cons x
    · rw [if_neg hp, List.nil_append]
      refine (ihd.append ihn).trans ?_
      have hiff : (place + 1 ≤ i ∧ i < place + 1 + next.length) ↔
          (place ≤ i ∧ i < place + (next.length + 1)) := by omega
      simp only [hiff, ← List.append_assoc]
      exact List.perm_append_comm.append_right next.order

end

theorem Trace.eq_done_of_order {t : Trace} (h : t.order = []) : t = .done := by
  cases t with
  | done => rfl
  | published => simp [order] at h

mutual

/-- A listener that is left undisturbed is told of the events in the order of their changes. -/
theorem Trace.heard_eq_order {m i : Nat} (hi : i < m) :
    (t : Trace) → t.Reaches m → t.Undisturbed i → t.heard i = t.order
  | .done, _, _ => rfl
  | .published n e rs next, ⟨hlen, hrs, hnext⟩, ⟨hu, hu'⟩ => by
    rw [Trace.heard_published, Trace.order, next.heard_eq_order hi hnext hu',
      rs.heard_eq_order hi (n, e) 0 (by omega) hrs hu, if_pos (Nat.zero_le i)]
    rfl

theorem Reactions.heard_eq_order {m i : Nat} (hi : i < m) (x : Nat × Event) (place : Nat) :
    (rs : Reactions) → i < place + rs.length → rs.Reaches m → rs.Undisturbed i place →
      rs.heard x place i = (if place ≤ i then [x] else []) ++ rs.order
  | .done, hlt, _, _ => by
    rw [Reactions.length] at hlt
    rw [if_neg (by omega)]
    rfl
  | .reacted during next, hlt, ⟨hd, hn⟩, ⟨hu, hu'⟩ => by
    rw [Reactions.length] at hlt
    rw [Reactions.heard_reacted, Reactions.order,
      next.heard_eq_order hi x (place + 1) (by omega) hn hu']
    rcases Nat.lt_or_ge place i with hp | hp
    · rw [if_pos hp] at hu
      subst hu
      rw [if_neg (by omega), if_pos (by omega), if_pos (by omega)]
      rfl
    · have hiff : place ≤ i ↔ place = i := by omega
      rw [if_neg (by omega)] at hu
      rw [if_neg (by omega : ¬place + 1 ≤ i), during.heard_eq_order hi hd hu]
      simp only [hiff, List.nil_append]

end

mutual

/-- A listener that is told of the events in the order of their changes was left undisturbed: what
a listener before it publishes would reach it ahead of the event that brought it about. -/
theorem Trace.undisturbed_of_heard {m i : Nat} (hi : i < m) :
    (t : Trace) → t.Reaches m → t.order.Nodup → t.heard i = t.order → t.Undisturbed i
  | .done, _, _, _ => trivial
  | .published n e rs next, ⟨hlen, hrs, hnext⟩, hnodup, h => by
    obtain ⟨hx, hnodup⟩ := List.nodup_cons.1 hnodup
    obtain ⟨hnrs, hnnext, -⟩ := List.nodup_append.1 hnodup
    rw [Trace.heard_published, Trace.order, ← List.cons_append] at h
    obtain ⟨hhead, htail⟩ := List.append_inj' h (next.heard_perm hi hnext).length_eq
    refine ⟨rs.undisturbed_of_heard hi (n, e) 0 hrs (fun hm => hx ?_) hnrs ?_,
      next.undisturbed_of_heard hi hnext hnnext htail⟩
    · exact List.mem_append_left _ hm
    · rw [if_pos (Nat.zero_le i), hhead]
      rfl

theorem Reactions.undisturbed_of_heard {m i : Nat} (hi : i < m) (x : Nat × Event) (place : Nat) :
    (rs : Reactions) → rs.Reaches m → x ∉ rs.order → rs.order.Nodup →
      rs.heard x place i = (if place ≤ i then [x] else []) ++ rs.order → rs.Undisturbed i place
  | .done, _, _, _, _ => trivial
  | .reacted during next, ⟨hd, hn⟩, hx, hnodup, h => by
    obtain ⟨hxd, hxn⟩ := not_or.1 (mt List.mem_append.2 hx)
    obtain ⟨hnd, hnn, -⟩ := List.nodup_append.1 hnodup
    have hperm := during.heard_perm hi hd
    rw [Reactions.heard_reacted, Reactions.order] at h
    rcases Nat.lt_or_ge place i with hp | hp
    · -- the first that the listener hears would be what was published before its turn
      have hdone : during = .done := by
        rw [if_neg (by omega), if_pos (by omega), List.nil_append, List.singleton_append] at h
        cases hheard : during.heard i with
        | nil => exact Trace.eq_done_of_order (List.perm_nil.1 (hheard ▸ hperm).symm)
        | cons y ys =>
          rw [hheard, List.cons_append] at h
          have hy : y ∈ during.order := hperm.mem_iff.1 (hheard ▸ List.mem_cons_self)
          exact absurd ((List.cons.inj h).1 ▸ hy) hxd
      subst hdone
      rw [if_neg (by omega), if_pos (by omega)] at h
      refine ⟨by rw [if_pos hp], next.undisturbed_of_heard hi x (place + 1) hn hxn hnn ?_⟩
      rw [if_pos (by omega)]
      exact h
    · have hiff : place ≤ i ↔ place = i := by omega
      simp only [hiff] at h
      obtain ⟨hhead, htail⟩ := List.append_inj (List.append_cancel_left h) hperm.length_eq
      refine ⟨?_, next.undisturbed_of_heard hi x (place + 1) hn hxn hnn ?_⟩
      · rw [if_neg (by omega)]
        exact during.undisturbed_of_heard hi hd hnd hhead
      · rw [if_neg (by omega)]
        exact htail

end

/-! ### Runs with their traces -/

/-- What a listener may do besides calling its registry: nothing that changes registries, styles,
subscriptions or listeners. -/
structure Aside (s s' : State) : Prop where
  registries : s'.registries = s.registries
  holdings : s'.holdings = s.holdings
  buses : s'.buses = s.buses
  listeners : s'.listeners = s.listeners
  calls : s'.calls = s.calls

mutual

/-- Calls made one after the other on the registry `id` of a host, by which a history and a host
become others, with what they published. A call may fail, as long as whoever makes it goes on; a
call on a style is on one that was handed out before. -/
inductive Calls (id : RegistryId) :
    (List Command → Run Unit) → History → State → Trace → History → State → Prop
  | done {react : List Command → Run Unit} {history : History} {s : State} :
      Calls id react history s .done history s
  | aside {react : List Command → Run Unit} {history history' : History} {s s₁ s' : State}
      {t : Trace} (what : Aside s s₁) (rest : Calls id react history s₁ t history' s') :
      Calls id react history s t history' s'
  | silent {react : List Command → Run Unit} {history history' : History} {s s₁ s' : State}
      {t : Trace} {r : Registry} {bus : BusId} {outcome : Except Failure (Option Handle)} (c : Call)
      (keeps : c ≠ .clear) (known : ∀ h, c.subject? = some h → history.Returned h)
      (registry : s.registries[id]? = some (r, bus))
      (event : (c.perform id r s.holdings).event = none)
      (ran : (commit react id (c.perform id)).run s = (outcome, s₁))
      (rest : Calls id react (history ++ [.of c (c.perform id r s.holdings)]) s₁ t history' s') :
      Calls id react history s t history' s'
  | published {react : List Command → Run Unit} {history history₁ history' : History}
      {s s₁ s' : State} {t : Trace} {rs : Reactions} {r : Registry} {bus : BusId} {b : Bus}
      {e : Event} {result : Option Handle} (c : Call)
      (keeps : c ≠ .clear) (known : ∀ h, c.subject? = some h → history.Returned h)
      (registry : s.registries[id]? = some (r, bus)) (subscriptions : s.buses[bus]? = some b)
      (event : (c.perform id r s.holdings).event = some e)
      (ran : (commit react id (c.perform id)).run s = (.ok result, s₁))
      (told : Told id react (history ++ [.of c (c.perform id r s.holdings)])
        (s.committed id bus (c.perform id r s.holdings)) e (b.audience e) rs history₁ s₁)
      (rest : Calls id react history₁ s₁ t history' s') :
      Calls id react history s (.published history.length e rs t) history' s'

/-- Listeners told of an event one after the other; the calls that one of them makes come before
the next one is told. -/
inductive Told (id : RegistryId) :
    (List Command → Run Unit) → History → State → Event → List ListenerId → Reactions →
      History → State → Prop
  | done {react : List Command → Run Unit} {history : History} {s : State} {e : Event} :
      Told id react history s e [] .done history s
  | next {react inner : List Command → Run Unit} {history history₁ history' : History}
      {s s₁ s' : State} {e : Event} {l : ListenerId} {ls : List ListenerId} {listener : Listener}
      {t : Trace} {rs : Reactions} (found : s.listeners[l]? = some listener)
      (ran : (if listener.isActive then react listener.reaction else pure ()).run
        (s.noted l listener e) = (.ok (), s₁))
      (during : Calls id inner history (s.noted l listener e) t history₁ s₁)
      (rest : Told id react history₁ s₁ e ls rs history' s') :
      Told id react history s e (l :: ls) (.reacted t rs) history' s'

end

mutual

/-- The trace of a run has the events of its calls in the order in which the calls made their
changes. -/
theorem Calls.order {id : RegistryId} {react : List Command → Run Unit}
    {history history' : History} {s s' : State} {t : Trace} :
    Calls id react history s t history' s' →
      ∃ later, history' = history ++ later ∧ t.order = History.numbered history.length later
  | .done => ⟨[], (List.append_nil _).symm, rfl⟩
  | .aside _ rest => rest.order
  | .silent (r := r) c _ _ _ event _ rest => by
    obtain ⟨later, hhistory, horder⟩ := rest.order
    refine ⟨.of c (c.perform id r s.holdings) :: later, by simp [hhistory], ?_⟩
    rw [horder]
    simp [History.numbered, Entry.of, event]
  | .published (r := r) c _ _ _ _ event _ told rest => by
    obtain ⟨during, hduring, htold⟩ := told.order
    obtain ⟨later, hlater, hrest⟩ := rest.order
    refine ⟨.of c (c.perform id r s.holdings) :: (during ++ later), by simp [hlater, hduring], ?_⟩
    rw [Trace.order, htold, hrest, hduring]
    simp [History.numbered, History.numbered_append, Entry.of, event, Nat.add_right_comm,
      Nat.add_assoc]

theorem Told.order {id : RegistryId} {react : List Command → Run Unit}
    {history history' : History} {s s' : State} {e : Event} {ls : List ListenerId}
    {rs : Reactions} :
    Told id react history s e ls rs history' s' →
      ∃ later, history' = history ++ later ∧ rs.order = History.numbered history.length later
  | .done => ⟨[], (List.append_nil _).symm, rfl⟩
  | .next _ _ during rest => by
    obtain ⟨inner, hinner, hduring⟩ := during.order
    obtain ⟨later, hlater, hrest⟩ := rest.order
    refine ⟨inner ++ later, by simp [hlater, hinner], ?_⟩
    rw [Reactions.order, hduring, hrest, hinner, History.numbered_append, List.length_append]

end

/-- A call of a listener as the host notes it. -/
def noteOf (names : List Text) (ls : List ListenerId) (call : Nat × Nat × Event) : Text × Event :=
  ((ls[call.1]?.bind (names[·]?)).getD [], call.2.2)

/-- A host after the calls of `history` on its registry `id`: the calls are a run of the registry,
and the listeners on its bus are still the same. -/
structure Follows (id : RegistryId) (r₀ : Registry) (hs₀ : Holdings) (bus : BusId)
    (ls : List ListenerId) (names : List Text) (history : History) (s : State) : Prop where
  run : ∃ r, s.registries[id]? = some (r, bus) ∧
    Registry.SoleRun id r₀ hs₀ history r s.holdings
  keeps : history.WithoutClear
  subscriptions : s.buses[bus]? = some ⟨ls, []⟩
  names : s.listeners.map (·.name) = names

namespace Follows

variable {id : RegistryId} {r₀ r : Registry} {hs₀ : Holdings} {bus : BusId}
  {ls : List ListenerId} {names : List Text} {history : History} {s s' : State}

theorem aside (hf : Follows id r₀ hs₀ bus ls names history s) (ha : Aside s s') :
    Follows id r₀ hs₀ bus ls names history s' where
  run := by rw [ha.registries, ha.holdings]; exact hf.run
  keeps := hf.keeps
  subscriptions := by rw [ha.buses]; exact hf.subscriptions
  names := by rw [ha.listeners]; exact hf.names

theorem noted (hf : Follows id r₀ hs₀ bus ls names history s) {l : ListenerId}
    {listener : Listener} (found : s.listeners[l]? = some listener) (e : Event) :
    Follows id r₀ hs₀ bus ls names history (s.noted l listener e) where
  run := hf.run
  keeps := hf.keeps
  subscriptions := hf.subscriptions
  names := by
    obtain ⟨hl, rfl⟩ := List.getElem?_eq_some_iff.1 found
    rw [← hf.names, State.noted, List.map_set]
    have hself := congrArg (List.map (·.name)) (List.set_getElem_self hl)
    rwa [List.map_set] at hself

theorem bus_eq (hf : Follows id r₀ hs₀ bus ls names history s) {bus' : BusId}
    (hreg : s.registries[id]? = some (r, bus')) :
    bus' = bus ∧ Registry.SoleRun id r₀ hs₀ history r s.holdings := by
  obtain ⟨r', hreg', hrun⟩ := hf.run
  obtain ⟨rfl, rfl⟩ := Prod.mk.inj (Option.some.inj (hreg.symm.trans hreg'))
  exact ⟨rfl, hrun⟩

theorem committed (hf : Follows id r₀ hs₀ bus ls names history s) {c : Call} {bus' : BusId}
    (hreg : s.registries[id]? = some (r, bus')) (keeps : c ≠ .clear)
    (known : ∀ h, c.subject? = some h → history.Returned h) :
    Follows id r₀ hs₀ bus ls names (history ++ [.of c (c.perform id r s.holdings)])
      (s.committed id bus' (c.perform id r s.holdings)) where
  run := by
    obtain ⟨rfl, hrun⟩ := hf.bus_eq hreg
    exact ⟨_, State.registries_committed hreg _, .call c hrun known⟩
  keeps := by
    intro e he
    rcases List.mem_append.1 he with he | he
    · exact hf.keeps e he
    · rw [List.mem_singleton.1 he]
      exact keeps
  subscriptions := hf.subscriptions
  names := hf.names

/-- The listeners that an event of the registry goes to. -/
theorem drop_zero_eq (hf : Follows id r₀ hs₀ bus ls names history s) {bus' : BusId} {b : Bus}
    {e : Event} (hreg : s.registries[id]? = some (r, bus')) (hb : s.buses[bus']? = some b) :
    ls.drop 0 = b.audience e := by
  obtain ⟨rfl, -⟩ := hf.bus_eq hreg
  obtain rfl := Option.some.inj (hb.symm.trans hf.subscriptions)
  exact (List.append_nil ls).symm

theorem noteOf_eq (hf : Follows id r₀ hs₀ bus ls names history s) {l : ListenerId}
    {listener : Listener} {place n : Nat} {e : Event} {rest : List ListenerId}
    (hplace : ls.drop place = l :: rest) (found : s.listeners[l]? = some listener) :
    noteOf names ls (place, n, e) = (listener.name, e) := by
  have hl : ls[place]? = some l := by
    rw [← Nat.add_zero place, ← List.getElem?_drop, hplace]
    rfl
  have hname : names[l]? = some listener.name := by
    rw [← hf.names, List.getElem?_map, found]
    rfl
  simp [noteOf, hl, hname]

end Follows

/-- A call that publishes nothing comes to its change. -/
theorem commit_silent {react : List Command → Run Unit} {id : RegistryId} {s s' : State}
    {r : Registry} {bus : BusId} {c : Call} {outcome : Except Failure (Option Handle)}
    (hreg : s.registries[id]? = some (r, bus)) (event : (c.perform id r s.holdings).event = none)
    (ran : (commit react id (c.perform id)).run s = (outcome, s')) :
    s' = s.committed id bus (c.perform id r s.holdings) := by
  rw [run_commit react hreg, event] at ran
  cases hres : (c.perform id r s.holdings).result <;> rw [hres] at ran <;>
    exact (Prod.mk.inj ran).2.symm

mutual

/-- Nested calls are one run of the registry, in the order of their changes, and the host notes the
calls of listeners as in the trace. -/
theorem Calls.follows {id : RegistryId} {react : List Command → Run Unit}
    {history history' : History} {s s' : State} {t : Trace} {r₀ : Registry} {hs₀ : Holdings}
    {bus : BusId} {ls : List ListenerId} {names : List Text}
    (hf : Follows id r₀ hs₀ bus ls names history s) :
    Calls id react history s t history' s' →
      Follows id r₀ hs₀ bus ls names history' s' ∧ t.Reaches ls.length ∧
        s'.calls = (t.calls.map (noteOf names ls)).reverse ++ s.calls
  | .done => ⟨hf, trivial, rfl⟩
  | .aside what rest => by
    obtain ⟨hf', hreaches, hcalls⟩ := rest.follows (hf.aside what)
    exact ⟨hf', hreaches, hcalls.trans (by rw [what.calls])⟩
  | .silent c keeps known registry event ran rest => by
    have hs₁ := commit_silent registry event ran
    obtain ⟨hf', hreaches, hcalls⟩ := rest.follows (hs₁ ▸ hf.committed registry keeps known)
    exact ⟨hf', hreaches, hcalls.trans (by rw [hs₁]; rfl)⟩
  | .published c keeps known registry subscriptions event ran told rest => by
    obtain ⟨hf₁, hlen, hrs, hcalls₁⟩ := told.follows (hf.committed registry keeps known)
      history.length (hf.drop_zero_eq registry subscriptions)
    obtain ⟨hf', hreaches, hcalls⟩ := rest.follows hf₁
    refine ⟨hf', ⟨?_, hrs, hreaches⟩, ?_⟩
    · rw [hlen, ← hf.drop_zero_eq registry subscriptions, List.drop_zero]
    · rw [hcalls, hcalls₁, Trace.calls, List.map_append, List.reverse_append, List.append_assoc]
      rfl

theorem Told.follows {id : RegistryId} {react : List Command → Run Unit}
    {history history' : History} {s s' : State} {e : Event} {rest : List ListenerId}
    {rs : Reactions} {r₀ : Registry} {hs₀ : Holdings} {bus : BusId} {ls : List ListenerId}
    {names : List Text} (hf : Follows id r₀ hs₀ bus ls names history s) (n : Nat) {place : Nat}
    (hplace : ls.drop place = rest) :
    Told id react history s e rest rs history' s' →
      Follows id r₀ hs₀ bus ls names history' s' ∧ rs.length = rest.length ∧
        rs.Reaches ls.length ∧
        s'.calls = ((rs.calls (n, e) place).map (noteOf names ls)).reverse ++ s.calls
  | .done => ⟨hf, rfl, trivial, rfl⟩
  | .next found _ during told => by
    obtain ⟨hf₁, hduring, hcalls₁⟩ := during.follows (hf.noted found e)
    have hnext := congrArg List.tail hplace
    rw [List.tail_drop, List.tail_cons] at hnext
    obtain ⟨hf', hlen, hrs, hcalls⟩ := told.follows hf₁ n hnext
    refine ⟨hf', by rw [Reactions.length, hlen, List.length_cons], ⟨hduring, hrs⟩, ?_⟩
    rw [hcalls, hcalls₁, Reactions.calls, List.map_cons, hf.noteOf_eq hplace found, List.map_append,
      List.reverse_cons, List.reverse_append, List.append_assoc, List.append_assoc]
    rfl

end

/-- The types of the events about a fingerprint that the listener at a place is told of. -/
def Trace.notices (t : Trace) (i : Nat) (fingerprint : Text) : List EventType :=
  (((t.heard i).map (·.2)).filter (·.fingerprint? = some fingerprint)).map (·.type)

/-- **Listeners are told of changes in order**, as far as they are: however calls nest, a listener
to all events of a registry is told of every change once, and it is told of them in the order in
which they were made exactly if no listener before it publishes anything by what it does. Then the
events about a style are first holders and last releases by turns. -/
theorem Calls.heard_eq_order_iff {id : RegistryId} {react : List Command → Run Unit}
    {s₀ s : State} {r₀ : Registry} {bus : BusId} {ls : List ListenerId} {t : Trace}
    {history : History} (hreg : s₀.registries[id]? = some (r₀, bus)) (hempty : r₀.entries = [])
    (hbus : s₀.buses[bus]? = some ⟨ls, []⟩) (hr : Calls id react [] s₀ t history s) :
    (∃ r, s.registries[id]? = some (r, bus) ∧
      Registry.SoleRun id r₀ s₀.holdings history r s.holdings) ∧
    t.order = history.numbered 0 ∧
    s.calls = (t.calls.map (noteOf (s₀.listeners.map (·.name)) ls)).reverse ++ s₀.calls ∧
    ∀ i < ls.length, (t.heard i).Perm t.order ∧ (t.heard i = t.order ↔ t.Undisturbed i) ∧
      (t.Undisturbed i → ∀ key, Alternating (t.notices i key)) := by
  have hf₀ : Follows id r₀ s₀.holdings bus ls (s₀.listeners.map (·.name)) [] s₀ :=
    ⟨⟨r₀, hreg, .start⟩, fun _ he => absurd he List.not_mem_nil, hbus, rfl⟩
  obtain ⟨hf, hreaches, hcalls⟩ := hr.follows hf₀
  obtain ⟨later, hlater, horder⟩ := hr.order
  rw [List.nil_append] at hlater
  subst hlater
  obtain ⟨r, hregs, hrun⟩ := hf.run
  have hnodup : t.order.Nodup := horder ▸ History.nodup_numbered 0 hrun.toRun.length_events
  refine ⟨⟨r, hregs, hrun⟩, horder, hcalls, fun i hi =>
    ⟨t.heard_perm hi hreaches, ⟨fun h => ?_, ?_⟩, ?_⟩⟩
  · exact t.undisturbed_of_heard hi hreaches hnodup h
  · exact t.heard_eq_order hi hreaches
  · intro hu key
    have hturns := (hrun.toRun.inv hempty hf.keeps).turns key
    rw [Trace.notices, t.heard_eq_order hi hreaches hu, horder, History.map_snd_numbered]
    exact hturns

/-! ### Two listeners, the first of which answers -/

/-- An account of whom an event reaches is what publishing it does. -/
theorem Told.run {id : RegistryId} {react : List Command → Run Unit}
    {history history' : History} {s s' : State} {e : Event} {ls : List ListenerId}
    {rs : Reactions} : Told id react history s e ls rs history' s' →
      (ls.forM (notify react e)).run s = (.ok (), s')
  | .done => rfl
  | .next found ran _ rest => by
    rw [List.forM, run_bind, run_notify found, ran]
    exact rest.run

/-- A listener that does nothing when told. -/
theorem Told.unanswered {id : RegistryId} {react : List Command → Run Unit}
    {history history' : History} {s s' : State} {e : Event} {l : ListenerId} {ls : List ListenerId}
    {listener : Listener} {rs : Reactions} (found : s.listeners[l]? = some listener)
    (ran : (if listener.isActive then react listener.reaction else pure ()).run
      (s.noted l listener e) = (.ok (), s.noted l listener e))
    (rest : Told id react history (s.noted l listener e) e ls rs history' s') :
    Told id react history s e (l :: ls) (.reacted .done rs) history' s' :=
  .next found ran (.done : Calls id react ..) rest

theorem run_commit_silent {react : List Command → Run Unit} {id : RegistryId} {s : State}
    {r : Registry} {bus : BusId} {c : Call} {a : Option Handle}
    (hreg : s.registries[id]? = some (r, bus)) (event : (c.perform id r s.holdings).event = none)
    (result : (c.perform id r s.holdings).result = .ok a) :
    (commit react id (c.perform id)).run s =
      (.ok a, s.committed id bus (c.perform id r s.holdings)) := by
  rw [run_commit react hreg, event, result]
  rfl

theorem Told.run_commit {id : RegistryId} {react : List Command → Run Unit}
    {history history' : History} {s s' : State} {r : Registry} {bus : BusId} {b : Bus} {e : Event}
    {rs : Reactions} {c : Call} {a : Option Handle}
    (told : Told id react history (s.committed id bus (c.perform id r s.holdings)) e
      (b.audience e) rs history' s')
    (hreg : s.registries[id]? = some (r, bus)) (hb : s.buses[bus]? = some b)
    (event : (c.perform id r s.holdings).event = some e)
    (result : (c.perform id r s.holdings).result = .ok a) :
    (commit react id (c.perform id)).run s = (.ok a, s') := by
  have hb' : (s.committed id bus (c.perform id r s.holdings)).buses[bus]? = some b := hb
  rw [Host.run_commit react hreg, event, result]
  simp only [publish, run_bind, run_get, hb', told.run, run_pure]

/-- A listener that answers the first event that it is told of. -/
def answering : Listener :=
  { name := "first".toList, reaction := [.unregister 0], limit := some 1 }

def attending : Listener := { name := "second".toList, reaction := [], limit := none }

/-- A host with one registry and two listeners to all of its events. -/
def twoListeners : State :=
  { registries := [({}, 0)]
    buses := [⟨[0, 1], []⟩]
    listeners := [answering, attending] }

/-- Whoever answers compiles the style once more and releases it twice. -/
def answer : List Command → Run Unit
  | [] => pure ()
  | _ => do
    let _ ← commit (fun _ => pure ()) 0 ((Call.compile { source := [] }).perform 0)
    let _ ← commit (fun _ => pure ()) 0 ((Call.unregister 0).perform 0)
    let _ ← commit (fun _ => pure ()) 0 ((Call.unregister 0).perform 0)

/-- What happens when the style is compiled: by the answer of the first listener it is gone before
the second one is told that it is there. -/
def answered (registered unregistered : Event) : Trace :=
  .published 0 registered
    (.reacted (.published 3 unregistered (.reacted .done (.reacted .done .done)) .done)
      (.reacted .done .done))
    .done

theorem exists_answered : ∃ e e' history s, e.type = .registered ∧ e'.type = .unregistered ∧
    e.fingerprint? = some (Request.fingerprint { source := [] }) ∧
    e'.fingerprint? = some (Request.fingerprint { source := [] }) ∧
    Calls 0 answer [] twoListeners (answered e e') history s := by
  -- the changes of the four calls, in order
  let compile : Call := .compile { source := [] }
  let ch₀ := compile.perform 0 {} []
  let ch₁ := compile.perform 0 ch₀.registry ch₀.holdings
  let ch₂ := (Call.unregister 0).perform 0 ch₁.registry ch₁.holdings
  let ch₃ := (Call.unregister 0).perform 0 ch₂.registry ch₂.holdings
  have hres : ch₀.result.toOption = some (some 0) ∧ ch₁.result.toOption = some (some 0) ∧
      ch₂.result.toOption = some none ∧ ch₃.result.toOption = some none := by decide +kernel
  have hev : ch₀.event.map (fun e => (e.type, e.fingerprint?)) =
        some (.registered, some (Request.fingerprint { source := [] })) ∧
      ch₁.event = none ∧ ch₂.event = none ∧
      ch₃.event.map (fun e => (e.type, e.fingerprint?)) =
        some (.unregistered, some (Request.fingerprint { source := [] })) := by decide +kernel
  obtain ⟨hres₀, hres₁, hres₂, hres₃⟩ := hres
  obtain ⟨hev₀, hev₁, hev₂, hev₃⟩ := hev
  obtain ⟨e, he, hte⟩ := Option.map_eq_some_iff.1 hev₀
  obtain ⟨e', he', hte'⟩ := Option.map_eq_some_iff.1 hev₃
  -- the host when the first listener is called, after its first two calls, and after all three
  let s₁ := (twoListeners.committed 0 0 ch₀).noted 0 answering e
  let s₃ := (s₁.committed 0 0 ch₁).committed 0 0 ch₂
  let s₅ := ((s₃.committed 0 0 ch₃).noted 0 { answering with calls := 1 } e').noted 1 attending e'
  have hkeeps : compile ≠ .clear := by simp [compile]
  have hreturned : ∀ later, History.Returned ([.of compile ch₀] ++ later) 0 := fun later =>
    ⟨.of compile ch₀, List.mem_append_left _ List.mem_cons_self,
      by simp [Entry.yields, Entry.of, hres₀]⟩
  have told : Told 0 (fun _ => pure ())
      ([.of compile ch₀] ++ [.of compile ch₁] ++ [.of (.unregister 0) ch₂] ++
        [.of (.unregister 0) ch₃])
      (s₃.committed 0 0 ch₃) e' [0, 1] (.reacted .done (.reacted .done .done)) _ s₅ :=
    .unanswered rfl rfl (.unanswered rfl rfl .done)
  have ran₁ : (commit (fun _ => pure ()) 0 ((Call.compile { source := [] }).perform 0)).run s₁ =
      (.ok (some 0), s₁.committed 0 0 ch₁) :=
    run_commit_silent rfl hev₁ (toOption_eq_some.1 hres₁)
  have ran₂ : (commit (fun _ => pure ()) 0 ((Call.unregister 0).perform 0)).run
      (s₁.committed 0 0 ch₁) = (.ok none, s₃) :=
    run_commit_silent rfl hev₂ (toOption_eq_some.1 hres₂)
  have ran₃ : (commit (fun _ => pure ()) 0 ((Call.unregister 0).perform 0)).run s₃ =
      (.ok none, s₅) :=
    told.run_commit (b := ⟨[0, 1], []⟩) rfl rfl he' (toOption_eq_some.1 hres₃)
  have during : Calls 0 (fun _ => pure ()) [.of compile ch₀] s₁
      (.published 3 e' (.reacted .done (.reacted .done .done)) .done) _ s₅ :=
    .silent compile hkeeps (by rintro _ ⟨⟩) rfl hev₁ ran₁ <|
    .silent (.unregister 0) (by rintro ⟨⟩) (by rintro h ⟨⟩; exact hreturned _) rfl hev₂ ran₂ <|
    .published (.unregister 0) (by rintro ⟨⟩) (by rintro h ⟨⟩; exact hreturned _) rfl rfl he' ran₃
      told .done
  have hanswer : (answer answering.reaction).run s₁ = (.ok (), s₅) := by
    simp only [answering, answer, run_bind, ran₁, ran₂, ran₃, run_pure]
  have told' : Told 0 answer [.of compile ch₀] (twoListeners.committed 0 0 ch₀) e [0, 1] _ _ _ :=
    .next rfl hanswer during (.unanswered rfl rfl .done)
  have ran := told'.run_commit (b := ⟨[0, 1], []⟩) rfl rfl he (toOption_eq_some.1 hres₀)
  obtain ⟨htype, hkey⟩ := Prod.mk.inj hte
  obtain ⟨htype', hkey'⟩ := Prod.mk.inj hte'
  exact ⟨e, e', _, _, htype, htype', hkey, hkey',
    .published compile hkeeps (by rintro _ ⟨⟩) rfl rfl he ran told' .done⟩

/-- The first listener, which answers, is itself told of everything in order. -/
theorem heard_by_answering : ∃ t history s, Calls 0 answer [] twoListeners t history s ∧
    t.Undisturbed 0 ∧ t.heard 0 = t.order ∧ t.order.length = 2 ∧
    t.order = history.numbered 0 ∧
    Alternating (t.notices 0 (Request.fingerprint { source := [] })) := by
  obtain ⟨e, e', history, s, -, -, -, -, hr⟩ := exists_answered
  obtain ⟨-, horder, -, hheard⟩ := Calls.heard_eq_order_iff rfl rfl rfl hr
  obtain ⟨-, hiff, hturns⟩ := hheard 0 (by decide)
  have hu : (answered e e').Undisturbed 0 := by
    simp [answered, Trace.Undisturbed, Reactions.Undisturbed]
  exact ⟨_, history, s, hr, hu, hiff.2 hu, rfl, horder, hturns hu _⟩

/-- The second listener is told that the style is gone before it is told that it is there. -/
theorem heard_by_attending : ∃ t history s, Calls 0 answer [] twoListeners t history s ∧
    twoListeners.buses[0]? = some ⟨[0, 1], []⟩ ∧ t.heard 1 ≠ t.order ∧
    t.notices 1 (Request.fingerprint { source := [] }) = [.unregistered, .registered] ∧
    ¬Alternating (t.notices 1 (Request.fingerprint { source := [] })) := by
  obtain ⟨e, e', history, s, htype, htype', hkey, hkey', hr⟩ := exists_answered
  have hheard : (answered e e').heard 1 = [(3, e'), (0, e)] := rfl
  have hnotices : (answered e e').notices 1 (Request.fingerprint { source := [] }) =
      [.unregistered, .registered] := by
    simp [Trace.notices, hheard, hkey, hkey', htype, htype']
  refine ⟨_, history, s, hr, rfl, ?_, hnotices, ?_⟩
  · rw [hheard]
    intro h
    cases congrArg (List.map (·.1)) h
  · rw [hnotices]
    intro h
    cases h 0 _ rfl

end Host

end ScopedCss
