/-
Runs of one registry: any calls that compile, register, unregister and clear, in any order, on any
style that the registry has ever handed out. A run keeps a record of what came of each call. Between
the calls anything may happen to styles that the registry has not handed out.

`compile_cases`, `acquire_cases` and `release_cases` say once what a call can do; everything about
runs is derived from them.
-/
import ScopedCss.Proofs.Assoc
import ScopedCss.Registry.Basic

namespace ScopedCss

namespace Holdings

@[simp] theorem length_setHolders (hs : Holdings) (h : Handle) (n : Nat) :
    (hs.setHolders h n).length = hs.length := by
  simp [setHolders]

theorem getElem?_setHolders_self {hs : Holdings} {h : Handle} {holding : Holding} (n : Nat)
    (hh : hs[h]? = some holding) :
    (hs.setHolders h n)[h]? = some { holding with holders := n } := by
  simp [setHolders, hh]

theorem getElem?_setHolders_other (hs : Holdings) {h h' : Handle} (n : Nat) (hne : h' ≠ h) :
    (hs.setHolders h n)[h']? = hs[h']? := by
  simp [setHolders, Ne.symm hne]

theorem holders_of_getElem? {hs : Holdings} {h : Handle} {holding : Holding}
    (hh : hs[h]? = some holding) : hs.holders h = holding.holders := by
  simp [holders, hh]

theorem holders_eq_zero_of_le {hs : Holdings} {h : Handle} (hle : hs.length ≤ h) :
    hs.holders h = 0 := by
  simp [holders, List.getElem?_eq_none hle]

theorem holders_setHolders_self {hs : Holdings} {h : Handle} {holding : Holding} (n : Nat)
    (hh : hs[h]? = some holding) : (hs.setHolders h n).holders h = n := by
  simp [holders, getElem?_setHolders_self n hh]

theorem holders_setHolders_other (hs : Holdings) {h h' : Handle} (n : Nat) (hne : h' ≠ h) :
    (hs.setHolders h n).holders h' = hs.holders h' := by
  simp [holders, getElem?_setHolders_other hs n hne]

/-- Counts never change which style a handle is. -/
theorem style_setHolders (hs : Holdings) (h h' : Handle) (n : Nat) :
    (hs.setHolders h n)[h']?.map (·.style) = hs[h']?.map (·.style) := by
  by_cases he : h' = h
  · subst he
    cases hh : hs[h']? with
    | none => simp [setHolders, hh]
    | some holding => simp [getElem?_setHolders_self n hh]
  · rw [getElem?_setHolders_other hs n he]

theorem exists_getElem?_setHolders {hs : Holdings} (h : Handle) {h' : Handle} (n : Nat)
    {before : Holding} (hh : hs[h']? = some before) :
    ∃ after, (hs.setHolders h n)[h']? = some after ∧ after.style = before.style := by
  have hstyle := style_setHolders hs h h' n
  rw [hh] at hstyle
  simpa only [Option.map_some, Option.map_eq_some_iff] using hstyle

theorem getElem?_add_fresh (hs : Holdings) (style : Style) (owner : Option RegistryId) :
    (hs.add style owner)[hs.fresh]? = some { style := style, owner := owner } := by
  simp [add, fresh]

theorem getElem?_add_of_lt {hs : Holdings} {h : Handle} (style : Style)
    (owner : Option RegistryId) (hlt : h < hs.length) : (hs.add style owner)[h]? = hs[h]? := by
  simp [add, List.getElem?_append_left hlt]

theorem getElem?_add_eq_some {hs : Holdings} {h : Handle} {style : Style}
    {owner : Option RegistryId} {holding : Holding} (hh : (hs.add style owner)[h]? = some holding) :
    hs[h]? = some holding ∨ h = hs.fresh ∧ holding = { style := style, owner := owner } := by
  by_cases hlt : h < hs.length
  · exact .inl (by rwa [getElem?_add_of_lt style owner hlt] at hh)
  · have hle : h < (hs.add style owner).length := (List.getElem?_eq_some_iff.1 hh).1
    simp only [add, List.length_append, List.length_cons, List.length_nil] at hle
    obtain rfl : h = hs.fresh := Nat.le_antisymm (Nat.le_of_lt_succ hle) (Nat.le_of_not_lt hlt)
    rw [getElem?_add_fresh] at hh
    exact .inr ⟨rfl, (Option.some.inj hh).symm⟩

theorem holders_add (hs : Holdings) (h : Handle) (style : Style) (owner : Option RegistryId) :
    (hs.add style owner).holders h = hs.holders h := by
  cases hh : (hs.add style owner)[h]? with
  | none =>
    have hle : (hs.add style owner).length ≤ h := List.getElem?_eq_none_iff.1 hh
    have hlen : hs.length ≤ (hs.add style owner).length := by simp [add]
    rw [holders_eq_zero_of_le hle, holders_eq_zero_of_le (Nat.le_trans hlen hle)]
  | some holding =>
    rw [holders_of_getElem? hh]
    rcases getElem?_add_eq_some hh with hh' | ⟨rfl, rfl⟩
    · rw [holders_of_getElem? hh']
    · exact (holders_eq_zero_of_le (Nat.le_refl hs.fresh)).symm

end Holdings

/-- The same change with another result. -/
def Change.map {α β : Type} (f : α → β) (c : Change α) : Change β :=
  { registry := c.registry
    holdings := c.holdings
    event := c.event
    log := c.log
    result := c.result.map f }

/-- The style that an event is about. -/
def Event.fingerprint? : Event → Option Text
  | registered _ _ fingerprint => some fingerprint
  | unregistered _ fingerprint => some fingerprint
  | other _ => none

/-- Whether an entry of the log says that a release was ignored. -/
def LogEntry.isIgnored : LogEntry → Bool
  | releaseIgnored _ => true
  | _ => false

namespace Registry

/-- A call on a registry, or on a style that it handed out. -/
inductive Call where
  | compile (q : Request)
  | register (h : Handle)
  | unregister (h : Handle)
  | clear

namespace Call

/-- The style that a call is made on. -/
def subject? : Call → Option Handle
  | register h => some h
  | unregister h => some h
  | _ => none

/-- What a call does to the registry of number `owner`; a call that yields a style results in its
handle. -/
def perform (owner : RegistryId) (c : Call) (r : Registry) (hs : Holdings) :
    Change (Option Handle) :=
  match c with
  | compile q => (r.compile hs owner q).map some
  | register h => (r.acquire hs h).map fun _ => some h
  | unregister h => (r.release hs h).map fun _ => none
  | clear => { registry := r.clear, holdings := hs, result := .ok none }

end Call

/-- A call that was made: the events it published, what it logged, and the style that it yielded. -/
structure Entry where
  call : Call
  events : List Event
  log : List LogEntry
  handle : Option Handle

/-- The entry of a call that comes to `ch`. -/
def Entry.of (c : Call) (ch : Change (Option Handle)) : Entry :=
  ⟨c, ch.event.toList, ch.log, ch.result.toOption.join⟩

namespace Entry

/-- Whether a call succeeded and yielded `h`. -/
def yields (h : Handle) (e : Entry) : Bool :=
  match e.handle with
  | some h' => h' == h
  | none => false

/-- Whether a call released `h` and was not ignored. -/
def releases (h : Handle) (e : Entry) : Bool :=
  match e.call with
  | .unregister h' => h' == h && !e.log.any (·.isIgnored)
  | _ => false

end Entry

/-- The calls of a run in order. -/
abbrev History := List Entry

namespace History

/-- How many calls yielded a style. -/
def yielded (history : History) (h : Handle) : Nat := history.countP (·.yields h)

/-- How many releases of a style were not ignored. -/
def released (history : History) (h : Handle) : Nat := history.countP (·.releases h)

/-- Whether a style was ever handed out. -/
def Returned (history : History) (h : Handle) : Prop := ∃ e ∈ history, e.yields h = true

/-- The types of the events about a fingerprint, in order. -/
def notices (history : History) (fingerprint : Text) : List EventType :=
  ((history.flatMap (·.events)).filter (·.fingerprint? = some fingerprint)).map (·.type)

/-- Every style that was handed out stays as it is, with its holders. -/
def Spares (history : History) (hs hs' : Holdings) : Prop :=
  ∀ h, history.Returned h → hs'[h]? = hs[h]?

end History

/-- The runs that start from the registry `r₀` of number `owner` and the styles `hs₀`. -/
inductive Run (owner : RegistryId) (r₀ : Registry) (hs₀ : Holdings) :
    History → Registry → Holdings → Prop
  | start : Run owner r₀ hs₀ [] r₀ hs₀
  | call {history : History} {r : Registry} {hs : Holdings} (c : Call)
      (before : Run owner r₀ hs₀ history r hs)
      (known : ∀ h, c.subject? = some h → history.Returned h) :
      Run owner r₀ hs₀ (history ++ [.of c (c.perform owner r hs)])
        (c.perform owner r hs).registry (c.perform owner r hs).holdings
  | elsewhere {history : History} {r : Registry} {hs hs' : Holdings}
      (before : Run owner r₀ hs₀ history r hs) (spared : history.Spares hs hs') :
      Run owner r₀ hs₀ history r hs'

/-- Runs with nothing in between the calls. -/
inductive SoleRun (owner : RegistryId) (r₀ : Registry) (hs₀ : Holdings) :
    History → Registry → Holdings → Prop
  | start : SoleRun owner r₀ hs₀ [] r₀ hs₀
  | call {history : History} {r : Registry} {hs : Holdings} (c : Call)
      (before : SoleRun owner r₀ hs₀ history r hs)
      (known : ∀ h, c.subject? = some h → history.Returned h) :
      SoleRun owner r₀ hs₀ (history ++ [.of c (c.perform owner r hs)])
        (c.perform owner r hs).registry (c.perform owner r hs).holdings

theorem SoleRun.toRun {owner : RegistryId} {r₀ r : Registry} {hs₀ hs : Holdings}
    {history : History} (h : SoleRun owner r₀ hs₀ history r hs) : Run owner r₀ hs₀ history r hs := by
  induction h with
  | start => exact .start
  | call c _ known ih => exact .call c ih known

/-- A call brings about one event at most. -/
theorem Run.length_events {owner : RegistryId} {r₀ r : Registry} {hs₀ hs : Holdings}
    {history : History} (h : Run owner r₀ hs₀ history r hs) :
    ∀ e ∈ history, e.events.length ≤ 1 := by
  induction h with
  | start => exact fun e he => absurd he List.not_mem_nil
  | @call history r hs c _ _ ih =>
    intro e he
    rcases List.mem_append.1 he with he | he
    · exact ih e he
    · rw [List.mem_singleton.1 he, Entry.of]
      cases (c.perform owner r hs).event <;> simp
  | elsewhere _ _ ih => exact ih

/-- No call changes how a registry names, prints and keeps its styles. -/
theorem Call.settings_perform (owner : RegistryId) (c : Call) (r : Registry) (hs : Holdings) :
    (c.perform owner r hs).registry.config = r.config ∧
      (c.perform owner r hs).registry.transforms = r.transforms := by
  cases c with
  | compile q =>
    simp only [perform, Change.map, Registry.compile]
    split
    · exact ⟨rfl, rfl⟩
    · split
      · exact ⟨rfl, rfl⟩
      · split <;> exact ⟨rfl, rfl⟩
  | register h =>
    simp only [perform, Change.map, acquire]
    split
    · exact ⟨rfl, rfl⟩
    · split
      · exact ⟨rfl, rfl⟩
      · split <;> exact ⟨rfl, rfl⟩
  | unregister h =>
    simp only [perform, Change.map, release]
    split
    · exact ⟨rfl, rfl⟩
    · split
      · exact ⟨rfl, rfl⟩
      · split
        · exact ⟨rfl, rfl⟩
        · split <;> exact ⟨rfl, rfl⟩
  | clear => exact ⟨rfl, rfl⟩

theorem Run.settings {owner : RegistryId} {r₀ r : Registry} {hs₀ hs : Holdings}
    {history : History} (h : Run owner r₀ hs₀ history r hs) :
    r.config = r₀.config ∧ r.transforms = r₀.transforms := by
  induction h with
  | start => exact ⟨rfl, rfl⟩
  | @call history r hs c _ _ ih =>
    obtain ⟨hc, ht⟩ := c.settings_perform owner r hs
    exact ⟨hc.trans ih.1, ht.trans ih.2⟩
  | elsewhere _ _ ih => exact ih

/-- A call that fails changes nothing and has nothing to announce. -/
theorem Call.unchanged_of_error (owner : RegistryId) (c : Call) {r : Registry} {hs : Holdings}
    {e : Refusal} (he : (c.perform owner r hs).result = .error e) :
    (c.perform owner r hs).registry = r ∧ (c.perform owner r hs).holdings = hs ∧
      (c.perform owner r hs).event = none := by
  cases c with
  | compile q =>
    simp only [perform, Change.map, Registry.compile] at he ⊢
    split at he
    · exact ⟨rfl, rfl, rfl⟩
    split at he
    · cases he
    split at he
    · exact ⟨rfl, rfl, rfl⟩
    · cases he
  | register h =>
    simp only [perform, Change.map, acquire] at he ⊢
    split at he
    · cases he
    split at he
    · cases he
    split at he
    · cases he
    · rename_i hne
      rw [if_neg hne]
      exact ⟨rfl, rfl, rfl⟩
  | unregister h =>
    simp only [perform, Change.map, release] at he
    repeat' split at he
    all_goals cases he
  | clear => cases he

/-- A registry with `h` under `key`, put there if need be. -/
def Stores (r r' : Registry) (key : Text) (h : Handle) : Prop :=
  r.get? key = some h ∧ r' = r ∨
    r.get? key = none ∧ r' = { r with entries := r.entries.insert key h }

/-- Why compiling fails: the values cannot be written, or there is no style to share and the request
does not compile. -/
def Declines (r : Registry) (q : Request) (e : Refusal) : Prop :=
  (∃ err, q.values.check = .error err ∧ e = .style err) ∨
    q.values.check = .ok () ∧ r.get? q.fingerprint = none ∧
      (Style.compile r.config r.transforms q).2 = .error e

/-- What compiling can do: fail and leave all as it was, share the stored style, or store a new
style. -/
theorem compile_cases {r : Registry} {hs : Holdings} (owner : RegistryId) (q : Request)
    (hv : ∀ h, r.get? q.fingerprint = some h → ∃ holding, hs[h]? = some holding) :
    (∃ e log, r.Declines q e ∧
      r.compile hs owner q = { registry := r, holdings := hs, log := log, result := .error e }) ∨
    q.values.check = .ok () ∧
      ((∃ h holding, r.get? q.fingerprint = some h ∧ hs[h]? = some holding ∧
        r.compile hs owner q =
          r.hold hs h holding [.reused holding.style.className holding.holders] h) ∨
      ∃ style log, r.get? q.fingerprint = none ∧
        (Style.compile r.config r.transforms q).2 = .ok style ∧
        r.compile hs owner q =
          { r with entries := r.entries.insert q.fingerprint hs.fresh }.hold
            (hs.add style (some owner)) hs.fresh { style := style, owner := some owner } log
            hs.fresh) := by
  cases hcheck : q.values.check with
  | error err =>
    exact .inl ⟨.style err, [], .inl ⟨err, hcheck, rfl⟩, by simp [compile, hcheck]⟩
  | ok _ =>
    cases hg : r.get? q.fingerprint with
    | some h =>
      obtain ⟨holding, hh⟩ := hv h hg
      refine .inr ⟨rfl, .inl ⟨h, holding, rfl, hh, ?_⟩⟩
      have hg' : r.entries.get? q.fingerprint = some h := hg
      simp [compile, hcheck, hg', hh]
    | none =>
      have hg' : r.entries.get? q.fingerprint = none := hg
      obtain ⟨recovered, result, hc⟩ :
          ∃ recovered result, Style.compile r.config r.transforms q = (recovered, result) :=
        ⟨_, _, rfl⟩
      cases result with
      | error e =>
        refine .inl ⟨e, recovered.map .ofDangling, .inr ⟨hcheck, hg, by rw [hc]⟩, ?_⟩
        simp [compile, hcheck, hg', hc]
      | ok style =>
        refine .inr ⟨rfl, .inr ⟨style, recovered.map .ofDangling ++ [.compiled style.className],
          rfl, by rw [hc], ?_⟩⟩
        simp [compile, hcheck, hg', hc]

/-- What registering a style can do: add a holder, taking the style in again if need be, or fail
because another style has its place. -/
theorem acquire_cases {r : Registry} {hs : Holdings} {h : Handle} {holding : Holding}
    (hh : hs[h]? = some holding) :
    (∃ r', Stores r r' holding.style.fingerprint h ∧
      r.acquire hs h = r'.hold hs h holding [] ()) ∨
    ∃ e, r.acquire hs h = { registry := r, holdings := hs, result := .error e } := by
  unfold acquire
  simp only [hh]
  split
  · rename_i hg
    exact .inl ⟨_, .inr ⟨hg, rfl⟩, rfl⟩
  · rename_i current hg
    split
    · rename_i he
      subst he
      exact .inl ⟨r, .inl ⟨hg, rfl⟩, rfl⟩
    · exact .inr ⟨_, rfl⟩

/-- The registry after the last release of the style under `key`. -/
def afterLast (r : Registry) (key : Text) : Registry :=
  if r.config.retainUnused then r else { r with entries := r.entries.erase key }

/-- What releasing a style can do: nothing, which the log says, or take a holder away. -/
theorem release_cases {r : Registry} {hs : Holdings} {h : Handle} {holding : Holding}
    (hh : hs[h]? = some holding) :
    (r.release hs h).result = .ok () ∧
    ((r.release hs h).registry = r ∧ (r.release hs h).holdings = hs ∧
        (r.release hs h).event = none ∧ (r.release hs h).log.any (·.isIgnored) = true ∨
      ∃ n, r.get? holding.style.fingerprint = some h ∧ holding.holders = n + 1 ∧
        (r.release hs h).registry = (if n = 0 then r.afterLast holding.style.fingerprint else r) ∧
        (r.release hs h).holdings = hs.setHolders h n ∧
        (r.release hs h).event = (if n = 0 then some (.ofUnregistered holding.style) else none) ∧
        (r.release hs h).log.any (·.isIgnored) = false) := by
  unfold release
  simp only [hh]
  split
  · exact ⟨rfl, .inl ⟨rfl, rfl, rfl, rfl⟩⟩
  · rename_i hcond
    simp only [Bool.or_eq_true, decide_eq_true_eq, not_or, ne_eq, Decidable.not_not] at hcond
    obtain ⟨hg, hpos⟩ := hcond
    obtain ⟨n, hn⟩ : ∃ n, holding.holders = n + 1 := ⟨holding.holders - 1, by omega⟩
    simp only [hn, Nat.add_sub_cancel]
    split
    · have h0 : n ≠ 0 := by omega
      exact ⟨rfl, .inr ⟨n, hg, rfl, by simp [h0], rfl, by simp [h0], rfl⟩⟩
    · have h0 : n = 0 := by omega
      subst h0
      split
      · rename_i hret
        exact ⟨rfl, .inr ⟨0, hg, rfl, by simp [afterLast, hret], rfl, rfl, rfl⟩⟩
      · rename_i hret
        exact ⟨rfl, .inr ⟨0, hg, rfl, by simp [afterLast, hret], rfl, rfl, rfl⟩⟩

end Registry

end ScopedCss
