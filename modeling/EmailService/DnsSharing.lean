/-
EmailService/DnsSharing.lean

Concurrent lookups that share one execution (`LookupMX` and `LookupTXT` in
internal/dns/resolver.go, over golang.org/x/sync/singleflight).

The calls are a system of callers, of flights that are under way, and of the two
caches.  A flight runs under the context of the caller that took off with it,
and whoever else asks for the same name waits for it.  So the answer is the
leader's: if the leader's context ends, all of them get its error
(`leader_cancels`).  `lookups_isolated` is what holds as long as no leader's
context has ended when its lookup comes back.

Records are in cells (Cells.lean), held by the caller they were returned to, or
by nobody if they are in a cache or in a flight.
-/
import EmailService.Cells
import EmailService.GoStrings

namespace EmailService.DnsSharing

open GoStrings Cells List Function Option
open Std (ExtTreeMap)

/-! ### The model -/

inductive Kind
  | mx
  | txt
  deriving DecidableEq

/-- The key of a flight, `MX:` or `TXT:` before the domain. -/
structure Key where
  kind : Kind
  domain : String
  deriving DecidableEq

/-- The errors, as `LookupMX` and `LookupTXT` tell them apart: a `DNSError` with
`IsNotFound` that is neither a timeout nor temporary, another error of the
resolver, and the end of a caller's context. -/
inductive LookupError
  | notFound (text : String)
  | failed (text : String)
  | context (caller : ℕ)
  deriving DecidableEq

/-- An answer in cells. -/
abbrev Shared := Except LookupError (List ℕ)

/-- `mxCacheEntry` and `txtCacheEntry`. -/
structure Entry where
  result : Shared
  expiresAt : ℤ

/-- A lookup under way: the cache is looked at once more, the resolver is asked,
and its answer is handed on. -/
inductive Stage
  | recheck
  | asking
  | landed (result : Shared)

structure Flight where
  leader : ℕ
  waiters : List ℕ
  stage : Stage

/-- Where a caller is: before the cache, before the flight, waiting for it with
what is in its channel, or returned.  `got` is what the returned records were. -/
inductive Phase (R : Type)
  | idle
  | missed (key : Key)
  | waiting (key : Key) (inbox : Option Shared)
  | returned (key : Key) (result : Shared) (got : Except LookupError (List R))

structure Caller (R : Type) where
  ctxDone : Bool := false
  phase : Phase R := .idle

/-- The resolver with its callers.  `said` is what the resolver has answered. -/
structure State (R : Type) where
  now : ℤ := 0
  heap : Heap R (Option ℕ) := []
  cache : Kind → ExtTreeMap String Entry compare := fun _ => ∅
  flights : Key → Option Flight := fun _ => none
  callers : ℕ → Caller R := fun _ => {}
  said : List (Key × Except LookupError (List R)) := []

inductive Event (R : Type)
  | call (c : ℕ) (kind : Kind) (domain : String)
  | join (c : ℕ)
  | recheck (key : Key)
  /-- the resolver answers; with the key that goes from a full cache -/
  | answer (key : Key) (a : Except LookupError (List R)) (evicted : Option String)
  | deliver (key : Key)
  | receive (c : ℕ)
  | giveUp (c : ℕ)
  | cancel (c : ℕ)
  | tick (d : ℕ)
  /-- a caller changes a record it was given -/
  | mutate (c : ℕ) (i : ℕ) (r : R)

def second : ℤ := 1000000000

section Model

variable {R : Type} (U : CaseTables)

def keyOf (kind : Kind) (domain : String) : Key := ⟨kind, toLower U (trimSuffix domain ".")⟩

/-- `cached`. -/
def cached (st : State R) (key : Key) : Option Shared :=
  match (st.cache key.kind)[key.domain]? with
  | some e => if st.now < e.expiresAt then some e.result else none
  | none => none

/-- `cloneMX` and `cloneTXT`: the records once more, in cells of `holder`. -/
def clone (heap : Heap R (Option ℕ)) (holder : Option ℕ) : Shared → Shared × Heap R (Option ℕ)
  | .error e => (.error e, heap)
  | .ok addrs =>
    let (copies, heap) := alloc heap holder (read heap addrs)
    (.ok copies, heap)

/-- The answer of the resolver, in cells of nobody. -/
def place (heap : Heap R (Option ℕ)) :
    Except LookupError (List R) → Shared × Heap R (Option ℕ)
  | .error e => (.error e, heap)
  | .ok records =>
    let (addrs, heap) := alloc heap none records
    (.ok addrs, heap)

/-- How long an answer is kept. -/
def ttl : Except LookupError (List R) → Option ℤ
  | .ok _ => some (300 * second)
  | .error (.notFound _) => some (30 * second)
  | .error _ => none

/-- An entry into the cache, for which another one goes if the cache is full. -/
def insertEntry (cache : ExtTreeMap String Entry compare) (evicted : Option String)
    (domain : String) (e : Entry) : Option (ExtTreeMap String Entry compare) :=
  if 4096 ≤ cache.size then
    match evicted with
    | some key => if key ∈ cache then some ((cache.erase key).insert domain e) else none
    | none => none
  else if evicted = none then some (cache.insert domain e)
  else none

variable (st : State R)

def State.setPhase (c : ℕ) (phase : Phase R) : State R :=
  { st with callers := update st.callers c { st.callers c with phase := phase } }

def State.setFlight (key : Key) (f : Option Flight) : State R :=
  { st with flights := update st.flights key f }

/-- A caller returns with a copy of an answer. -/
def State.give (c : ℕ) (key : Key) (r : Shared) : State R :=
  { st with heap := (clone st.heap (some c) r).2 }.setPhase c
    (.returned key (clone st.heap (some c) r).1 (r.map (read st.heap)))

/-- What the channels of the waiters get. -/
def State.send (key : Key) (waiters : List ℕ) (r : Shared) : State R :=
  { st with callers := fun c =>
      match (st.callers c).phase with
      | .waiting k none =>
        if k = key ∧ c ∈ waiters then { st.callers c with phase := .waiting k (some r) }
        else st.callers c
      | _ => st.callers c }

/-- An answer the resolver may give under the context of `leader`. -/
def Possible (leader : ℕ) : Except LookupError (List R) → Prop
  | .error (.context c) => c = leader ∧ (st.callers leader).ctxDone = true
  | _ => True

instance (leader : ℕ) (a : Except LookupError (List R)) : Decidable (Possible st leader a) := by
  unfold Possible
  split <;> infer_instance

/-- The resolver has answered the flight `f`. -/
def State.answered (key : Key) (f : Flight) (a : Except LookupError (List R))
    (evicted : Option String) : Option (State R) :=
  let (result, heap) := place st.heap a
  let landed := { st with heap := heap, said := (key, a) :: st.said }.setFlight key
    (some { f with stage := .landed result })
  match ttl a with
  | none => some landed
  | some ttl =>
    let (copy, heap) := clone landed.heap none result
    (insertEntry (st.cache key.kind) evicted key.domain ⟨copy, st.now + ttl⟩).map fun cache =>
      { landed with heap := heap, cache := update st.cache key.kind cache }

/-- The steps of the callers and of the flights; nothing if a step is not possible. -/
def step : Event R → Option (State R)
  | .call c kind domain =>
    match (st.callers c).phase with
    | .idle =>
      match cached st (keyOf U kind domain) with
      | some r => some (st.give c (keyOf U kind domain) r)
      | none => some (st.setPhase c (.missed (keyOf U kind domain)))
    | _ => none
  -- `DoChan`
  | .join c =>
    match (st.callers c).phase with
    | .missed key =>
      let f := match st.flights key with
        | some f => { f with waiters := c :: f.waiters }
        | none => { leader := c, waiters := [c], stage := .recheck }
      some ((st.setFlight key (some f)).setPhase c (.waiting key none))
    | _ => none
  | .recheck key =>
    match st.flights key with
    | some ⟨leader, waiters, .recheck⟩ =>
      match cached st key with
      | some r =>
        some ({ st with heap := (clone st.heap none r).2 }.setFlight key
          (some ⟨leader, waiters, .landed (clone st.heap none r).1⟩))
      | none => some (st.setFlight key (some ⟨leader, waiters, .asking⟩))
    | _ => none
  | .answer key a evicted =>
    match st.flights key with
    | some ⟨leader, waiters, .asking⟩ =>
      if Possible st leader a then st.answered key ⟨leader, waiters, .asking⟩ a evicted
      else none
    | _ => none
  | .deliver key =>
    match st.flights key with
    | some ⟨_, waiters, .landed r⟩ => some ((st.send key waiters r).setFlight key none)
    | _ => none
  | .receive c =>
    match (st.callers c).phase with
    | .waiting key (some r) => some (st.give c key r)
    | _ => none
  | .giveUp c =>
    match (st.callers c).phase with
    | .waiting key _ =>
      if (st.callers c).ctxDone then
        some (st.setPhase c (.returned key (.error (.context c)) (.error (.context c))))
      else none
    | _ => none
  | .cancel c =>
    some { st with callers := update st.callers c { st.callers c with ctxDone := true } }
  | .tick d => some { st with now := st.now + d }
  | .mutate c i r =>
    match (st.callers c).phase with
    | .returned _ (.ok addrs) _ =>
      match addrs[i]? with
      | some a => some { st with heap := write st.heap a r }
      | none => none
    | _ => none

def run : State R → List (Event R) → Option (State R)
  | st, [] => some st
  | st, e :: es => (step U st e).bind fun st => run st es

end Model

/-! ### What is known -/

section Known

variable {R : Type} {U : CaseTables} {heap : Heap R (Option ℕ)} {holder : Option ℕ} {r : Shared}
  {a : Except LookupError (List R)} {st st' : State R} {key : Key} {c : ℕ}

/-- The cells of an answer show it. -/
def Shows (heap : Heap R (Option ℕ)) (holder : Option ℕ) :
    Shared → Except LookupError (List R) → Prop
  | .error e, .error e' => e = e'
  | .ok addrs, .ok values => Holds heap holder addrs values
  | _, _ => False

/-- An answer in cells is one that the resolver gave. -/
def Known (st : State R) (key : Key) (r : Shared) : Prop :=
  ∃ a, (key, a) ∈ st.said ∧ Shows st.heap none r a

theorem Shows.append (h : Shows heap holder r a) (more : Heap R (Option ℕ)) :
    Shows (heap ++ more) holder r a := by
  match r, a, h with
  | .error _, .error _, h => exact h
  | .ok _, .ok _, h => exact Holds.append h more

theorem Shows.map_read (h : Shows heap holder r a) : r.map (read heap) = a := by
  match r, a, h with
  | .error _, .error _, h => exact congrArg Except.error h
  | .ok _, .ok _, h => exact congrArg Except.ok (Holds.read_eq h)

theorem clone_heap (heap : Heap R (Option ℕ)) (holder : Option ℕ) (r : Shared) :
    ∃ more, (clone heap holder r).2 = heap ++ more := by
  cases r with
  | error e => exact ⟨[], (append_nil _).symm⟩
  | ok addrs => exact ⟨_, rfl⟩

variable {other : Option ℕ} {f' : Flight} {evicted : Option String} {leader i : ℕ}
  {waiters : List ℕ} {v v' : R}

/-- A copy shows the same, whoever holds it. -/
theorem Shows.clone (h : Shows heap other r a) (holder : Option ℕ) :
    Shows (clone heap holder r).2 holder (clone heap holder r).1 a := by
  match r, a, h with
  | .error _, .error _, h => exact h
  | .ok addrs, .ok values, h =>
    show Holds (alloc heap holder (read heap addrs)).2 holder
      (alloc heap holder (read heap addrs)).1 values
    rw [Holds.read_eq h]
    exact holds_alloc heap holder values

theorem place_heap (heap : Heap R (Option ℕ)) (a : Except LookupError (List R)) :
    ∃ more, (place heap a).2 = heap ++ more := by
  cases a with
  | error e => exact ⟨[], (append_nil _).symm⟩
  | ok records => exact ⟨_, rfl⟩

theorem shows_place (heap : Heap R (Option ℕ)) (a : Except LookupError (List R)) :
    Shows (place heap a).2 none (place heap a).1 a := by
  cases a with
  | error e => exact rfl
  | ok records => exact holds_alloc heap none records

/-- A state that knows at least as much. -/
structure Grows (st st' : State R) : Prop where
  said : st.said ⊆ st'.said
  heap : ∃ more, st'.heap = st.heap ++ more

theorem Known.grows (h : Known st key r) (hgrows : Grows st st') : Known st' key r := by
  obtain ⟨a, hsaid, hshows⟩ := h
  obtain ⟨more, hmore⟩ := hgrows.heap
  exact ⟨a, hgrows.said hsaid, hmore ▸ hshows.append more⟩

/-! ### The invariant -/

/-- What holds of a caller. -/
def CallerOk (st : State R) (c : ℕ) (caller : Caller R) : Prop :=
  match caller.phase with
  | .idle => True
  | .missed _ => True
  | .waiting key none => ∃ f, st.flights key = some f ∧ c ∈ f.waiters
  | .waiting key (some r) => Known st key r
  | .returned key r got =>
    ((key, got) ∈ st.said ∨ got = .error (.context c) ∧ caller.ctxDone = true) ∧
      ∃ a, Shows st.heap (some c) r a

structure Inv (st : State R) : Prop where
  cache : ∀ kind domain e, (st.cache kind)[domain]? = some e → Known st ⟨kind, domain⟩ e.result
  landed : ∀ key leader waiters r, st.flights key = some ⟨leader, waiters, .landed r⟩ →
    Known st key r
  callers : ∀ c, CallerOk st c (st.callers c)

/-- No waiter is lost. -/
def Onboard (st st' : State R) : Prop :=
  ∀ key f c, st.flights key = some f → c ∈ f.waiters →
    ∃ f', st'.flights key = some f' ∧ c ∈ f'.waiters

theorem CallerOk.grows {caller : Caller R} (h : CallerOk st c caller) (hgrows : Grows st st')
    (honboard : Onboard st st') : CallerOk st' c caller := by
  unfold CallerOk at h ⊢
  split
  · trivial
  · trivial
  · next key heq =>
    rw [heq] at h
    obtain ⟨f, hf, hc⟩ := h
    exact honboard key f c hf hc
  · next key r heq =>
    rw [heq] at h
    exact .grows h hgrows
  · next key r got heq =>
    rw [heq] at h
    obtain ⟨more, hmore⟩ := hgrows.heap
    obtain ⟨hgot, a, hshows⟩ := h
    exact ⟨hgot.imp_left (@hgrows.said _), a, hmore ▸ hshows.append more⟩

theorem cached_known (h : Inv st) (hcached : cached st key = some r) : Known st key r := by
  unfold cached at hcached
  split at hcached
  · next e he =>
    split at hcached
    · cases hcached
      exact h.cache key.kind key.domain e he
    · cases hcached
  · cases hcached

/-- A step that only adds keeps the invariant if what it adds is known. -/
theorem Inv.grow (h : Inv st) (hgrows : Grows st st') (honboard : Onboard st st')
    (hcache : ∀ kind domain e, (st'.cache kind)[domain]? = some e →
      (st.cache kind)[domain]? = some e ∨ Known st' ⟨kind, domain⟩ e.result)
    (hlanded : ∀ key leader waiters r, st'.flights key = some ⟨leader, waiters, .landed r⟩ →
      (∃ l w, st.flights key = some ⟨l, w, .landed r⟩) ∨ Known st' key r)
    (hcallers : ∀ c, st'.callers c = st.callers c ∨ CallerOk st' c (st'.callers c)) : Inv st' where
  cache kind domain e he := by
    rcases hcache kind domain e he with hold | hnew
    · exact (h.cache kind domain e hold).grows hgrows
    · exact hnew
  landed key leader waiters r hf := by
    rcases hlanded key leader waiters r hf with ⟨l, w, hold⟩ | hnew
    · exact (h.landed key l w r hold).grows hgrows
    · exact hnew
  callers c := by
    rcases hcallers c with hold | hnew
    · exact hold ▸ (h.callers c).grows hgrows honboard
    · exact hnew

theorem onboard_of_eq (h : st'.flights = st.flights) : Onboard st st' :=
  fun _ f _ hf hc => ⟨f, h ▸ hf, hc⟩

theorem flights_setFlight (f : Option Flight) (key' : Key) :
    (st.setFlight key f).flights key' = if key' = key then f else st.flights key' :=
  update_apply ..

/-- A flight with at least the waiters it had. -/
theorem onboard_setFlight (h : ∀ f, st.flights key = some f → f.waiters ⊆ f'.waiters) :
    Onboard st (st.setFlight key (some f')) := by
  intro key' f c hf hc
  rw [flights_setFlight]
  split
  · next hkey => exact ⟨f', rfl, h f (hkey ▸ hf) hc⟩
  · exact ⟨f, hf, hc⟩

theorem callers_setPhase (phase : Phase R) (c' : ℕ) :
    (st.setPhase c phase).callers c' = st.callers c' ∨
      c' = c ∧ (st.setPhase c phase).callers c' = { st.callers c with phase := phase } := by
  by_cases hc : c' = c
  · subst hc
    exact .inr ⟨rfl, update_self ..⟩
  · exact .inl (update_of_ne hc ..)

/-- A caller returns with what is known. -/
theorem Inv.give (h : Inv st) (hknown : Known st key r) (c : ℕ) : Inv (st.give c key r) := by
  obtain ⟨a, hsaid, hshows⟩ := hknown
  refine h.grow ⟨.refl _, clone_heap ..⟩ (onboard_of_eq rfl)
    (fun _ _ _ he => .inl he) (fun _ l w _ hf => .inl ⟨l, w, hf⟩) fun c' => ?_
  refine (callers_setPhase _ c').imp_right ?_
  rintro ⟨rfl, hcaller⟩
  refine hcaller ▸ ⟨.inl ?_, a, hshows.clone (some c')⟩
  exact hshows.map_read.symm ▸ hsaid

theorem Inv.setPhase {phase : Phase R} (h : Inv st)
    (hphase : CallerOk st c { st.callers c with phase := phase }) : Inv (st.setPhase c phase) := by
  refine h.grow ⟨.refl _, [], (append_nil _).symm⟩ (onboard_of_eq rfl)
    (fun _ _ _ he => .inl he) (fun _ l w _ hf => .inl ⟨l, w, hf⟩) fun c' => ?_
  refine (callers_setPhase _ c').imp_right ?_
  rintro ⟨rfl, hcaller⟩
  exact hcaller ▸ hphase

/-- A flight that goes on, with all its waiters. -/
theorem Inv.setFlight (h : Inv st)
    (hwaiters : ∀ f, st.flights key = some f → f.waiters ⊆ f'.waiters)
    (hstage : ∀ r, f'.stage = .landed r → (∃ f, st.flights key = some f ∧ f.stage = .landed r) ∨
      Known st key r) : Inv (st.setFlight key (some f')) := by
  refine h.grow ⟨.refl _, [], (append_nil _).symm⟩ (onboard_setFlight hwaiters)
    (fun _ _ _ he => .inl he) (fun key' leader waiters r hf => ?_) fun c' => .inl rfl
  rw [flights_setFlight] at hf
  split at hf
  · next hkey =>
    subst hkey
    cases hf
    refine (hstage r rfl).imp ?_ id
    rintro ⟨⟨l, w, _⟩, hold, rfl⟩
    exact ⟨l, w, hold⟩
  · exact .inl ⟨leader, waiters, hf⟩

/-- New cells change nothing. -/
theorem Inv.extend (h : Inv st) (more : Heap R (Option ℕ)) :
    Inv { st with heap := st.heap ++ more } :=
  h.grow ⟨.refl _, more, rfl⟩ (onboard_of_eq rfl) (fun _ _ _ he => .inl he)
    (fun _ l w _ hf => .inl ⟨l, w, hf⟩) fun _ => .inl rfl

/-- A caller that waits is among the waiters of the flight. -/
theorem Inv.join {f : Flight} (h : Inv st) (hf : f = match st.flights key with
      | some f => { f with waiters := c :: f.waiters }
      | none => { leader := c, waiters := [c], stage := .recheck }) :
    Inv ((st.setFlight key (some f)).setPhase c (.waiting key none)) := by
  have hc : c ∈ f.waiters := by
    rw [hf]
    split <;> exact mem_cons_self
  have hflight : Inv (st.setFlight key (some f)) := by
    refine h.setFlight (fun f₀ hf₀ => ?_) fun r hr => ?_
    · rw [hf, hf₀]
      exact subset_cons_self _ _
    · rw [hf] at hr
      split at hr
      · next f₀ hf₀ => exact .inl ⟨f₀, hf₀, hr⟩
      · cases hr
  exact hflight.setPhase ⟨f, by rw [flights_setFlight, if_pos rfl], hc⟩

theorem cache_insertEntry {cache cache' : ExtTreeMap String Entry compare} {domain d : String}
    {e e' : Entry} (h : insertEntry cache evicted domain e = some cache')
    (he' : cache'[d]? = some e') : cache[d]? = some e' ∨ d = domain ∧ e' = e := by
  have hinsert : ∀ m : ExtTreeMap String Entry compare, (m.insert domain e)[d]? = some e' →
      m[d]? = some e' ∨ d = domain ∧ e' = e := by
    intro m hm
    rw [ExtTreeMap.getElem?_insert] at hm
    split at hm
    · next heq =>
      exact .inr ⟨(Std.LawfulEqCmp.compare_eq_iff_eq.mp heq).symm, (some.inj hm).symm⟩
    · exact .inl hm
  unfold insertEntry at h
  split at h
  · split at h
    · split at h
      · cases h
        refine (hinsert _ he').imp_left fun herase => ?_
        rw [ExtTreeMap.getElem?_erase] at herase
        split at herase
        · cases herase
        · exact herase
      · cases h
    · cases h
  · split at h
    · cases h
      exact hinsert _ he'
    · cases h

/-- The resolver's answer is known, in the flight and in the cache. -/
theorem Inv.answered (h : Inv st) {stage : Stage}
    (hf : st.flights key = some ⟨leader, waiters, stage⟩)
    (hstep : st.answered key ⟨leader, waiters, stage⟩ a evicted = some st') : Inv st' := by
  have hplace := shows_place st.heap a
  obtain ⟨more, hmore⟩ := place_heap st.heap a
  -- the state with the answer
  have hlanded : Inv ({ st with heap := (place st.heap a).2, said := (key, a) :: st.said }.setFlight
      key (some ⟨leader, waiters, .landed (place st.heap a).1⟩)) := by
    have hsaid : Inv { st with heap := (place st.heap a).2, said := (key, a) :: st.said } :=
      h.grow ⟨subset_cons_self _ _, more, hmore⟩ (onboard_of_eq rfl) (fun _ _ _ he => .inl he)
        (fun _ l w _ hf => .inl ⟨l, w, hf⟩) fun _ => .inl rfl
    refine hsaid.setFlight (fun f hf' => ?_) fun r hr => .inr ?_
    · cases hf.symm.trans hf'
      exact .refl _
    · cases hr
      exact ⟨a, mem_cons_self, hplace⟩
  unfold State.answered at hstep
  dsimp only at hstep
  split at hstep
  · cases hstep
    exact hlanded
  · next d hd =>
    obtain ⟨cache, hcache, rfl⟩ := map_eq_some_iff.mp hstep
    refine hlanded.grow ⟨.refl _, clone_heap ..⟩ (onboard_of_eq rfl) ?_
      (fun _ l w _ hf => .inl ⟨l, w, hf⟩) fun _ => .inl rfl
    intro kind domain e he
    by_cases hkind : kind = key.kind
    · subst hkind
      change (update st.cache key.kind cache key.kind)[domain]? = some e at he
      rw [update_self] at he
      rcases cache_insertEntry hcache he with hold | ⟨rfl, rfl⟩
      · exact .inl hold
      · exact .inr ⟨a, mem_cons_self, hplace.clone none⟩
    · change (update st.cache key.kind cache kind)[domain]? = some e at he
      rw [update_of_ne hkind] at he
      exact .inl he

/-- A flight that has landed is gone, and everyone aboard has the answer. -/
theorem Inv.deliver (h : Inv st) (hf : st.flights key = some ⟨leader, waiters, .landed r⟩) :
    Inv ((st.send key waiters r).setFlight key none) := by
  have hknown := h.landed key leader waiters r hf
  refine ⟨h.cache, fun key' l w r' hf' => ?_, fun c => ?_⟩
  · rw [flights_setFlight] at hf'
    split at hf'
    · cases hf'
    · exact h.landed key' l w r' hf'
  have hc := h.callers c
  show CallerOk _ c ((st.send key waiters r).callers c)
  unfold State.send
  dsimp only
  split
  · next k hphase =>
    split
    · next hk => exact hk.1 ▸ hknown
    · next hk =>
      -- a waiter of another flight
      unfold CallerOk at hc ⊢
      rw [hphase] at hc ⊢
      obtain ⟨f, hf', hcf⟩ := hc
      refine ⟨f, ?_, hcf⟩
      rw [flights_setFlight, if_neg]
      · exact hf'
      · rintro rfl
        cases hf.symm.trans hf'
        exact hk ⟨rfl, hcf⟩
  · next hphase =>
    unfold CallerOk at hc ⊢
    split
    · trivial
    · trivial
    · next k heq => exact absurd heq (hphase k)
    · next k r' heq => rwa [heq] at hc
    · next k r' got heq => rwa [heq] at hc

theorem Inv.cancel (h : Inv st) (c : ℕ) :
    Inv { st with
      callers := update st.callers c { st.callers c with ctxDone := true } } := by
  refine ⟨h.cache, h.landed, fun c' => ?_⟩
  have hc := h.callers c'
  dsimp only
  by_cases heq : c' = c
  · subst heq
    rw [update_self]
    unfold CallerOk at hc ⊢
    dsimp only
    split
    · trivial
    · trivial
    · next hphase => rwa [hphase] at hc
    · next hphase => rwa [hphase] at hc
    · next hphase =>
      rw [hphase] at hc
      exact ⟨hc.1.imp_right fun hgot => ⟨hgot.1, rfl⟩, hc.2⟩
  · rw [update_of_ne heq]
    exact hc

theorem Shows.write (h : Shows heap holder r a) (hi : heap[i]? = some ⟨v, other⟩)
    (hne : other ≠ holder) : Shows (write heap i v') holder r a := by
  match r, a, h with
  | .error _, .error _, h => exact h
  | .ok _, .ok _, h => exact Holds.write h hi hne

/-- The cells of a caller are its own. -/
theorem Inv.own (h : Inv st) {addrs : List ℕ} {got : Except LookupError (List R)}
    (hphase : (st.callers c).phase = .returned key (.ok addrs) got) :
    ∃ values, Holds st.heap (some c) addrs values := by
  have hc := h.callers c
  unfold CallerOk at hc
  rw [hphase] at hc
  obtain ⟨-, a, ha⟩ := hc
  match a, ha with
  | .ok values, ha => exact ⟨values, ha⟩

/-- A caller's write to its own cell. -/
theorem Inv.mutate (h : Inv st) (hi : st.heap[i]? = some ⟨v, some c⟩) :
    Inv { st with heap := write st.heap i v' } := by
  have hknown : ∀ {key r}, Known st key r → Known { st with heap := write st.heap i v' } key r :=
    fun ⟨a, hsaid, hshows⟩ => ⟨a, hsaid, hshows.write hi (some_ne_none c)⟩
  refine ⟨fun kind domain e he => hknown (h.cache kind domain e he),
    fun key l w r hf => hknown (h.landed key l w r hf), fun c' => ?_⟩
  have hc := h.callers c'
  unfold CallerOk at hc ⊢
  dsimp only
  split
  · trivial
  · trivial
  · next hphase => rwa [hphase] at hc
  · next hphase =>
    rw [hphase] at hc
    exact hknown hc
  · next key r got hphase =>
    rw [hphase] at hc
    obtain ⟨hgot, a, hshows⟩ := hc
    refine ⟨hgot, ?_⟩
    match r, a, hshows with
    | .error e, .error _, hshows => exact ⟨.error e, rfl⟩
    | .ok addrs, .ok values, hshows =>
      obtain ⟨values', hholds⟩ := Holds.exists_write hshows i v'
      exact ⟨.ok values', hholds⟩

/-- **Every step keeps the invariant.** -/
theorem Inv.step (h : Inv st) {e : Event R} (hstep : step U st e = some st') : Inv st' := by
  cases e with
  | call c kind domain =>
    rw [DnsSharing.step] at hstep
    split at hstep
    · split at hstep
      · next hcached =>
        cases hstep
        exact h.give (cached_known h hcached) c
      · cases hstep
        exact h.setPhase trivial
    · cases hstep
  | join c =>
    rw [DnsSharing.step] at hstep
    split at hstep
    · cases hstep
      exact h.join rfl
    · cases hstep
  | recheck key =>
    rw [DnsSharing.step] at hstep
    split at hstep
    · next leader waiters hf =>
      split at hstep
      · next r hcached =>
        cases hstep
        obtain ⟨a, hsaid, hshows⟩ := cached_known h hcached
        obtain ⟨more, hmore⟩ := clone_heap st.heap none r
        have hext : Inv { st with heap := (clone st.heap none r).2 } := hmore ▸ h.extend more
        refine hext.setFlight (fun f hf' => ?_) fun r' hr' => .inr ?_
        · cases hf.symm.trans hf'
          exact .refl _
        · cases hr'
          exact ⟨a, hsaid, hshows.clone none⟩
      · cases hstep
        refine h.setFlight (fun f hf' => ?_) nofun
        cases hf.symm.trans hf'
        exact .refl _
    · cases hstep
  | answer key a evicted =>
    rw [DnsSharing.step] at hstep
    split at hstep
    · next hf =>
      split at hstep
      · exact h.answered hf hstep
      · cases hstep
    · cases hstep
  | deliver key =>
    rw [DnsSharing.step] at hstep
    split at hstep
    · next hf =>
      cases hstep
      exact h.deliver hf
    · cases hstep
  | receive c =>
    rw [DnsSharing.step] at hstep
    split at hstep
    · next key r hphase =>
      cases hstep
      have hc := h.callers c
      unfold CallerOk at hc
      rw [hphase] at hc
      exact h.give hc c
    · cases hstep
  | giveUp c =>
    rw [DnsSharing.step] at hstep
    split at hstep
    · split at hstep
      · next hdone =>
        cases hstep
        exact h.setPhase ⟨.inr ⟨rfl, hdone⟩, .error (.context c), rfl⟩
      · cases hstep
    · cases hstep
  | cancel c =>
    cases hstep
    exact h.cancel c
  | tick d =>
    cases hstep
    exact ⟨h.cache, h.landed, h.callers⟩
  | mutate c i v =>
    rw [DnsSharing.step] at hstep
    split at hstep
    · next hphase =>
      split at hstep
      · next a ha =>
        cases hstep
        obtain ⟨values, hholds⟩ := h.own hphase
        obtain ⟨w, hw⟩ := hholds.get (mem_of_getElem? ha)
        exact h.mutate hw
      · cases hstep
    · cases hstep

theorem inv_start : Inv ({} : State R) where
  cache _ _ _ he := by simp at he
  landed _ _ _ _ hf := nomatch hf
  callers _ := trivial

theorem Inv.run {events : List (Event R)} (h : Inv st) (hrun : run U st events = some st') :
    Inv st' := by
  induction events generalizing st with
  | nil =>
    cases hrun
    exact h
  | cons e es ih =>
    obtain ⟨mid, hstep, hrun⟩ := bind_eq_some_iff.mp hrun
    exact ih (h.step hstep) hrun

end Known

/-! ### Isolation -/

section Isolation

variable {R : Type} {U : CaseTables} {st st' : State R} {events : List (Event R)}

/-- The context of the leader has not ended when the resolver answers. -/
def Calm (st : State R) : Event R → Prop
  | .answer key _ _ =>
    match st.flights key with
    | some f => (st.callers f.leader).ctxDone = false
    | none => True
  | _ => True

instance (st : State R) (e : Event R) : Decidable (Calm st e) := by
  unfold Calm
  split
  · split <;> infer_instance
  · infer_instance

/-- All steps of a run are calm. -/
def Along (U : CaseTables) : State R → List (Event R) → Prop
  | _, [] => True
  | st, e :: es =>
    Calm st e ∧
      match step U st e with
      | some st' => Along U st' es
      | none => True

instance decidableAlong (U : CaseTables) (st : State R) (events : List (Event R)) :
    Decidable (Along U st events) :=
  match events with
  | [] => .isTrue trivial
  | e :: es =>
    match h : step U st e with
    | some st' =>
      have := decidableAlong U st' es
      decidable_of_iff (Calm st e ∧ Along U st' es) (by rw [Along, h])
    | none => decidable_of_iff (Calm st e ∧ True) (by rw [Along, h])

/-- No answer was the end of a context. -/
def Answered (st : State R) : Prop := ∀ key c, (key, .error (.context c)) ∉ st.said

variable {key : Key} {e : Event R}

theorem said_answered {f : Flight} {a : Except LookupError (List R)} {evicted : Option String}
    (h : st.answered key f a evicted = some st') : st'.said = (key, a) :: st.said := by
  unfold State.answered at h
  dsimp only at h
  split at h
  · cases h
    rfl
  · obtain ⟨cache, -, rfl⟩ := map_eq_some_iff.mp h
    rfl

/-- Only an answer adds to what was said. -/
theorem said_step (h : step U st e = some st') : st'.said = st.said ∨
    ∃ key leader waiters a evicted, e = .answer key a evicted ∧
      st.flights key = some ⟨leader, waiters, .asking⟩ ∧ Possible st leader a ∧
      st'.said = (key, a) :: st.said := by
  cases e with
  | answer key a evicted =>
    rw [step] at h
    split at h
    · next leader waiters hf =>
      split at h
      · next hpossible =>
        exact .inr ⟨key, leader, waiters, a, evicted, rfl, hf, hpossible, said_answered h⟩
      · cases h
    · cases h
  | _ =>
    left
    rw [step] at h
    repeat' split at h
    all_goals cases h
    all_goals rfl

theorem Answered.step (h : Answered st) (hcalm : Calm st e) (hstep : step U st e = some st') :
    Answered st' := by
  intro key c
  rcases said_step hstep with hsame | ⟨key', leader, waiters, a, evicted, rfl, hf, hpossible, hsaid⟩
  · rw [hsame]
    exact h key c
  · rw [hsaid, mem_cons]
    rintro (heq | hmem)
    · cases heq
      have hlive := hcalm
      rw [Calm, hf] at hlive
      exact absurd (hpossible.2.symm.trans hlive) nofun
    · exact h key c hmem

theorem Answered.run (h : Answered st) (halong : Along U st events)
    (hrun : run U st events = some st') : Answered st' := by
  induction events generalizing st with
  | nil =>
    cases hrun
    exact h
  | cons e es ih =>
    obtain ⟨mid, hstep, hrun⟩ := bind_eq_some_iff.mp hrun
    rw [Along, hstep] at halong
    exact ih (h.step halong.1 hstep) halong.2 hrun

/-- The heap grows, or a caller writes to its own cell. -/
theorem heap_step (h : Inv st) (hstep : step U st e = some st') :
    (∃ more, st'.heap = st.heap ++ more) ∨
      ∃ c i v a w, e = .mutate c i v ∧ st.heap[a]? = some ⟨w, some c⟩ ∧
        st'.heap = write st.heap a v := by
  have hsame : ∃ more, st.heap = st.heap ++ more := ⟨[], (append_nil _).symm⟩
  cases e with
  | mutate c i v =>
    rw [step] at hstep
    split at hstep
    · next hphase =>
      split at hstep
      · next a ha =>
        cases hstep
        obtain ⟨values, hholds⟩ := h.own hphase
        obtain ⟨w, hw⟩ := hholds.get (mem_of_getElem? ha)
        exact .inr ⟨c, i, v, a, w, rfl, hw, rfl⟩
      · cases hstep
    · cases hstep
  | answer key a evicted =>
    left
    rw [step] at hstep
    split at hstep
    · split at hstep
      · unfold State.answered at hstep
        dsimp only at hstep
        obtain ⟨more, hmore⟩ := place_heap st.heap a
        split at hstep
        · cases hstep
          exact ⟨more, hmore⟩
        · obtain ⟨cache, -, rfl⟩ := map_eq_some_iff.mp hstep
          obtain ⟨more', hmore'⟩ := clone_heap (place st.heap a).2 none (place st.heap a).1
          exact ⟨more ++ more', by rw [← append_assoc, ← hmore]; exact hmore'⟩
      · cases hstep
    · cases hstep
  | _ =>
    left
    rw [step] at hstep
    repeat' split at hstep
    all_goals cases hstep
    all_goals first | exact hsame | exact clone_heap ..

/-- What holds of the callers in a state. -/
structure Isolated (U : CaseTables) (st : State R) : Prop where
  /-- a caller whose context has not ended has an answer of the resolver -/
  answered : ∀ c key r got, (st.callers c).phase = .returned key r got →
    (st.callers c).ctxDone = false →
    (key, got) ∈ st.said ∧ ∀ c', got ≠ .error (.context c')
  /-- a caller that waits is waited for -/
  aboard : ∀ c key, (st.callers c).phase = .waiting key none →
    ∃ f, st.flights key = some f ∧ c ∈ f.waiters
  /-- no one else changes the records of a caller -/
  apart : ∀ c key addrs got e st', (st.callers c).phase = .returned key (.ok addrs) got →
    step U st e = some st' → (∀ i v, e ≠ .mutate c i v) →
    read st'.heap addrs = read st.heap addrs

theorem Inv.apart (h : Inv st) {c : ℕ} {addrs : List ℕ} {got : Except LookupError (List R)}
    (hphase : (st.callers c).phase = .returned key (.ok addrs) got)
    (hstep : DnsSharing.step U st e = some st') (hother : ∀ i v, e ≠ .mutate c i v) :
    read st'.heap addrs = read st.heap addrs := by
  obtain ⟨values, hholds⟩ := h.own hphase
  rw [hholds.read_eq]
  rcases heap_step h hstep with ⟨more, hmore⟩ | ⟨c', i, v, a, w, rfl, ha, hwrite⟩
  · rw [hmore]
    exact (hholds.append more).read_eq
  · rw [hwrite]
    refine (hholds.write ha fun heq => ?_).read_eq
    exact hother i v (by rw [some.inj heq])

/-- **Lookups are isolated as long as no leader's context ends before its
lookup.** -/
theorem lookups_isolated (hrun : run U {} events = some st) (halong : Along U {} events) :
    Isolated U st := by
  have hinv := inv_start.run hrun
  have hnil : Answered ({} : State R) := fun _ _ => not_mem_nil
  have hanswered := hnil.run halong hrun
  refine ⟨fun c key r got hphase hlive => ?_, fun c key hphase => ?_, ?_⟩
  · have hc := hinv.callers c
    unfold CallerOk at hc
    rw [hphase] at hc
    have hsaid : (key, got) ∈ st.said := by
      refine hc.1.resolve_right fun hdone => ?_
      rw [hlive] at hdone
      cases hdone.2
    exact ⟨hsaid, fun c' heq => hanswered key c' (heq ▸ hsaid)⟩
  · have hc := hinv.callers c
    unfold CallerOk at hc
    rwa [hphase] at hc
  · intro c key addrs got e st' hphase hstep hother
    exact hinv.apart hphase hstep hother

/-- The error a caller has returned with. -/
def Phase.error? : Phase R → Option LookupError
  | .returned _ (.error e) _ => some e
  | _ => none

/-- Two callers for one name, the second one aboard the flight of the first. -/
def together : List (Event ℕ) :=
  [.call 0 .mx "a.test", .join 0, .call 1 .mx "A.test.", .join 1, .recheck ⟨.mx, "a.test"⟩]

/-- The resolver answers, and the second caller takes the answer and changes it. -/
def answered : List (Event ℕ) :=
  together ++ [.answer ⟨.mx, "a.test"⟩ (.ok [7]) none, .deliver ⟨.mx, "a.test"⟩, .receive 1,
    .mutate 1 0 8]

theorem lookups_isolated_together : Along asciiTables {} answered ∧
    ∃ st, run asciiTables {} answered = some st ∧ Isolated asciiTables st := by
  have halong : Along asciiTables {} answered := by decide +kernel
  have hsome : (run asciiTables {} answered).isSome = true := by decide +kernel
  obtain ⟨st, hrun⟩ := isSome_iff_exists.mp hsome
  exact ⟨halong, st, hrun, lookups_isolated hrun halong⟩

/-- The second caller's context never ends, and it gets the end of the first one's. -/
theorem leader_cancels :
    (run asciiTables {} (together ++ [.cancel 0,
        .answer ⟨.mx, "a.test"⟩ (.error (.context 0)) none, .deliver ⟨.mx, "a.test"⟩,
        .receive 1])).map (fun st => ((st.callers 1).ctxDone, (st.callers 1).phase.error?)) =
      some (false, some (.context 0)) := by
  decide +kernel

end Isolation

end EmailService.DnsSharing
