/-
EmailService/Webhooks.lean

The outbox of webhook events (internal/extensions/webhooks.go), with the requests
that fill it (`recordMutation` in internal/api/extensions.go) and the one worker
that empties it.

A request begins an event, and finishes it once if the process lives that long.
An event is not transmitted before it is ready, which it becomes by being
finished or at the next start of the process.  From then on its payload does
not change: nobody else finishes it.  `final` is the payload with which an event
became ready, and everything that is transmitted of the event is that.

Main result: `events_consistent`.  The tables are lists of rows, a statement is
a step, and a process stops between any two steps.
-/
import EmailService.JsonStruct

namespace EmailService.Webhooks

open Json Utf8 List Function

/-! ### Payloads -/

/-- `Event`, with its time in nanoseconds since year 1 began. -/
structure Event where
  id : List UInt8 := []
  time : ℤ := 0
  principal : List UInt8 := []
  method : List UInt8 := []
  path : List UInt8 := []
  status : Int64 := 0
  outcome : List UInt8 := []

def Event.value (e : Event) : Value :=
  .obj [(bytes "id", .str e.id),
    (bytes "time", .str (Rfc3339.format 0 e.time)),
    (bytes "principal", .str e.principal),
    (bytes "method", .str e.method),
    (bytes "path", .str e.path),
    (bytes "status", .num (decimalInt e.status.toInt)),
    (bytes "outcome", .str e.outcome)]

/-- `json.Marshal` with its error ignored: nothing for a year that RFC 3339 does not
have. -/
def Event.payload (e : Event) : List UInt8 :=
  if Rfc3339.FourDigits 0 e.time then e.value.print else []

def eventFields : List (Json.Field Event) :=
  [⟨bytes "id", storeString fun s e => { e with id := s }⟩,
    ⟨bytes "time", storeTime fun t e => { e with time := t }⟩,
    ⟨bytes "principal", storeString fun s e => { e with principal := s }⟩,
    ⟨bytes "method", storeString fun s e => { e with method := s }⟩,
    ⟨bytes "path", storeString fun s e => { e with path := s }⟩,
    ⟨bytes "status", storeInt fun z e => { e with status := Int64.ofInt z }⟩,
    ⟨bytes "outcome", storeString fun s e => { e with outcome := s }⟩]

/-- `json.Unmarshal` into an event. -/
def readEvent (payload : List UInt8) : Option Event := unmarshal eventFields payload {}

def completed : List UInt8 := bytes "completed"
def interrupted : List UInt8 := bytes "interrupted_or_unknown"

/-- What a payload says. -/
def outcomeOf (payload : List UInt8) : Option (List UInt8) := (readEvent payload).map Event.outcome

/-! ### The outbox -/

inductive DeliveryState
  | pending
  | sent
  | dead
  deriving DecidableEq

/-- A row of `events`. -/
structure EventRow where
  id : List UInt8
  payload : List UInt8
  ready : Bool
  created : ℤ

/-- A row of `deliveries`. -/
structure Delivery where
  event : List UInt8
  destination : List UInt8
  attempts : ℕ := 0
  due : ℤ := 0
  state : DeliveryState := .pending

/-- Where a request is after `Begin`: before `Finish`, or with the payload it is
about to write. -/
inductive Request
  | handling
  | writing (payload : List UInt8)

/-- What `Dispatch` has read of a delivery. -/
structure Item where
  id : List UInt8
  dest : List UInt8
  raw : List UInt8
  attempt : ℕ

inductive Worker
  | idle
  | sending (items : List Item)
  /-- an item was sent, or not, and its row is not updated yet -/
  | updating (item : Item) (sent : Bool) (rest : List Item)

structure Transmission where
  id : List UInt8
  dest : List UInt8
  payload : List UInt8

/-- The tables, the process, and what has happened: which events began with which
destinations, what was transmitted and acknowledged, for which events `Finish`
succeeded, and for which the process stopped before that. -/
structure State where
  events : List EventRow := []
  deliveries : List Delivery := []
  hooks : List (List UInt8) := []
  requests : List UInt8 → Option Request := fun _ => none
  worker : Worker := .idle
  begun : List (List UInt8 × List (List UInt8)) := []
  transmitted : List Transmission := []
  acked : List (List UInt8 × List UInt8) := []
  finished : List (List UInt8) := []
  stopped : List (List UInt8) := []
  final : List UInt8 → Option (List UInt8) := fun _ => none

/-- How a statement that changes something ends: an error may come after it has
taken effect. -/
inductive Outcome
  | done
  | undone
  | doneWithError
  deriving DecidableEq

def Outcome.applies : Outcome → Bool
  | undone => false
  | _ => true

inductive Action
  | begin (id principal method path : List UInt8) (now : ℤ) (o : Outcome)
  | finishRead (id : List UInt8) (status : Int64)
  | finishWrite (id : List UInt8) (o : Outcome)
  /-- the request ends before `Finish` has succeeded -/
  | drop (id : List UInt8)
  | dispatchRead (now : ℤ) (picked : List (List UInt8 × List UInt8))
  | dispatchSend (reaches acknowledged : Bool)
  | dispatchUpdate (now : ℤ) (o : Outcome)
  | dispatchStop
  | retry
  | restart (hooks : List (List UInt8))

def unix (now : ℤ) : ℤ := now / 1000000000 - 62135596800

section Model

variable (st : State)

/-- Whether `Begin` keeps an event. -/
def keeps (cutoff : ℤ) (row : EventRow) : Bool :=
  !(row.created < cutoff &&
    st.deliveries.all fun d => d.event ≠ row.id || d.state = .sent)

/-- The events `Begin` leaves. -/
def kept (now : ℤ) : List EventRow :=
  st.events.filter (keeps st (unix (now - 7 * 24 * 3600 * 1000000000)))

variable (id principal method path : List UInt8) (now : ℤ)

def newEvent : Event where
  id := id
  time := now
  principal := principal
  method := method
  path := path
  outcome := interrupted

/-- The transaction of `Begin`. -/
def beginTx : State :=
  { st with
    events := kept st now ++
      [⟨id, (newEvent id principal method path now).payload, false, unix now⟩]
    deliveries := (st.deliveries.filter fun d => (kept st now).any (·.id = d.event)) ++
      st.hooks.map fun h => { event := id, destination := h }
    begun := (id, st.hooks) :: st.begun }

/-- `UPDATE events SET payload=?,ready=1 WHERE id=?`. -/
def writePayload (id payload : List UInt8) : State :=
  { st with
    events := st.events.map fun row =>
      if row.id = id then { row with payload := payload, ready := true } else row
    final := if st.events.any (·.id = id) then update st.final id (some payload)
      else st.final }

/-- What `Dispatch` reads of an event and a destination. -/
def readItem (now : ℤ) (pick : List UInt8 × List UInt8) : Option Item :=
  match st.events.find? (fun row => row.id = pick.1 && row.ready),
      st.deliveries.find? (fun d => d.event = pick.1 && d.destination = pick.2 &&
        d.state = .pending && d.due ≤ unix now) with
  | some row, some d => some ⟨d.event, d.destination, row.payload, d.attempts⟩
  | _, _ => none

/-- The row of a delivery after an attempt. -/
def attempted (now : ℤ) (sent : Bool) (v : Item) (d : Delivery) : Delivery :=
  if d.event = v.id ∧ d.destination = v.dest then
    { d with
      attempts := v.attempt + 1
      due := unix (now + 1000000000 * 2 ^ min (v.attempt + 1) 12)
      state := if sent then .sent else if 10 ≤ v.attempt + 1 then .dead else .pending }
  else d

/-- The statements of requests and of the worker, and the end of the process with the
next `OpenOutbox`; nothing if one of them is not possible. -/
def step : Action → Option State
  | .begin id principal method path now o =>
    -- `uuid.NewString` gives a new one
    if id ∈ st.begun.map Prod.fst then none
    else if 10000 ≤ (kept st now).length ∨ ¬ st.hooks.Nodup ∨ o = .undone then some st
    else
      let st := beginTx st id principal method path now
      -- without an error the handler runs, and then `Finish`
      if o = .done then
        some { st with requests := update st.requests id (some .handling) }
      else some st
  | .finishRead id status =>
    match st.requests id with
    | some .handling =>
      match (st.events.find? (·.id = id)).bind fun row => readEvent row.payload with
      | none => some { st with requests := update st.requests id none }
      | some e =>
        let e := { e with status := status, outcome := completed }
        some { st with
          requests := update st.requests id (some (.writing e.payload)) }
    | _ => none
  | .finishWrite id o =>
    match st.requests id with
    | some (.writing payload) =>
      let st := { st with requests := update st.requests id none }
      let st := if o.applies then writePayload st id payload else st
      some (if o = .done then { st with finished := id :: st.finished } else st)
    | _ => none
  | .drop id => some { st with requests := update st.requests id none }
  | .dispatchRead now picked =>
    match st.worker with
    | .idle =>
      if 32 < picked.length then none
      else (picked.mapM (readItem st now)).map fun items => { st with worker := .sending items }
    | _ => none
  | .dispatchSend reaches acknowledged =>
    match st.worker with
    | .sending (v :: rest) =>
      if (acknowledged → reaches) ∧ (reaches → v.dest ∈ st.hooks) then
        some { st with
          worker := .updating v acknowledged rest
          transmitted :=
            if reaches then ⟨v.id, v.dest, v.raw⟩ :: st.transmitted else st.transmitted
          acked := if acknowledged then (v.id, v.dest) :: st.acked else st.acked }
      else none
    | _ => none
  | .dispatchUpdate now o =>
    match st.worker with
    | .updating v sent rest =>
      some { st with
        worker := if o = .done then .sending rest else .idle
        deliveries :=
          if o.applies then st.deliveries.map (attempted now sent v) else st.deliveries }
    | _ => none
  | .dispatchStop => some { st with worker := .idle }
  | .retry =>
    some { st with deliveries := st.deliveries.map fun d =>
      if d.state = .dead then { d with attempts := 0, due := 0, state := .pending } else d }
  | .restart hooks =>
    some { st with
      hooks := hooks
      requests := fun _ => none
      worker := .idle
      stopped := (st.begun.map Prod.fst).filter (· ∉ st.finished) ++ st.stopped
      events := st.events.map fun row => { row with ready := true }
      final := fun id =>
        match st.events.find? (fun row => row.id = id && !row.ready) with
        | some row => some row.payload
        | none => st.final id }

def run : State → List Action → Option State
  | st, [] => some st
  | st, a :: as => (step st a).bind fun st => run st as

end Model

/-! ### What is read back -/

section Json

/-- The event with its texts repaired. -/
def Event.repaired (e : Event) : Event :=
  { e with
    id := repair e.id
    principal := repair e.principal
    method := repair e.method
    path := repair e.path
    outcome := repair e.outcome }

theorem sound_value (e : Event) : e.value.Sound := by
  rw [Event.value, Value.Sound]
  simp only [SoundMembers, sound_str, sound_decimalInt, and_self]

variable {e e' : Event}

theorem storeStruct_value (h : Rfc3339.FourDigits 0 e.time) :
    storeStruct eventFields e.value.repaired {} = some e.repaired := by
  have hstatus : -2 ^ 63 ≤ e.status.toInt ∧ e.status.toInt < 2 ^ 63 :=
    ⟨e.status.le_toInt, e.status.toInt_lt⟩
  have htime := storeTime_format h fun t (e : Event) => { e with time := t }
  have hint := storeInt_decimalInt hstatus fun z (e : Event) => { e with status := .ofInt z }
  have f₁ : fieldOf eventFields (bytes "id") = some ⟨_, _⟩ := rfl
  have f₂ : fieldOf eventFields (bytes "time") = some ⟨_, _⟩ := rfl
  have f₃ : fieldOf eventFields (bytes "principal") = some ⟨_, _⟩ := rfl
  have f₄ : fieldOf eventFields (bytes "method") = some ⟨_, _⟩ := rfl
  have f₅ : fieldOf eventFields (bytes "path") = some ⟨_, _⟩ := rfl
  have f₆ : fieldOf eventFields (bytes "status") = some ⟨_, _⟩ := rfl
  have f₇ : fieldOf eventFields (bytes "outcome") = some ⟨_, _⟩ := rfl
  simp only [storeStruct, Event.value, Value.repaired, repairedMembers, repair_bytes,
    repair_format h, storeMembers, f₁, f₂, f₃, f₄, f₅, f₆, f₇, htime, hint, storeString,
    Option.bind_some, Int64.ofInt_toInt, Event.repaired]

/-- **An event is read back with its texts repaired**, if there is anything to read. -/
theorem readEvent_payload (h : readEvent e.payload = some e') :
    e' = e.repaired ∧ Rfc3339.FourDigits 0 e.time := by
  unfold readEvent Event.payload at h
  split at h
  · next hyear =>
    rw [unmarshal_print eventFields (sound_value e), storeStruct_value hyear] at h
    exact ⟨(Option.some.inj h).symm, hyear⟩
  · cases h

theorem outcomeOf_payload (h : Rfc3339.FourDigits 0 e.time) :
    outcomeOf e.payload = some (repair e.outcome) := by
  rw [outcomeOf, readEvent, Event.payload, if_pos h, unmarshal_print eventFields (sound_value e),
    storeStruct_value h]
  rfl

/-- What `Finish` writes says that the request was completed. -/
theorem outcomeOf_finished (h : readEvent e.payload = some e') (status : Int64) :
    outcomeOf { e' with status := status, outcome := completed }.payload = some completed := by
  obtain ⟨rfl, hyear⟩ := readEvent_payload h
  rw [outcomeOf_payload]
  · exact congrArg some (repair_bytes _)
  · exact hyear

end Json

/-! ### Payloads -/

section Payloads

variable {st st' : State} {a : Action}

def Worker.items : Worker → List Item
  | .idle => []
  | .sending items => items
  | .updating v _ rest => v :: rest

/-- The events that began. -/
def State.ids (st : State) : List (List UInt8) := st.begun.map Prod.fst

/-- What holds of the payloads. -/
structure Settled (st : State) : Prop where
  rows : (st.events.map EventRow.id).Nodup
  begun : ∀ row ∈ st.events, row.id ∈ st.ids
  waiting : ∀ row ∈ st.events, row.ready = false →
    st.final row.id = none ∧ ∃ e : Event, row.payload = e.payload
  ready : ∀ row ∈ st.events, row.ready = true → st.final row.id = some row.payload
  transmitted : ∀ t ∈ st.transmitted, st.final t.id = some t.payload
  items : ∀ v ∈ st.worker.items, st.final v.id = some v.raw
  requests : ∀ id q, st.requests id = some q → id ∈ st.ids ∧ st.final id = none ∧
    id ∉ st.finished ∧ ∀ payload, q = .writing payload → outcomeOf payload = some completed
  final : ∀ id payload, st.final id = some payload → id ∈ st.ids ∧
    (outcomeOf payload = some completed ∨ id ∈ st.stopped ∧ id ∉ st.finished)
  finished : ∀ id ∈ st.finished, id ∈ st.ids ∧ ∀ row ∈ st.events, row.id = id → row.ready = true

/-- What holds of a request. -/
def RequestOk (st : State) (id : List UInt8) (q : Request) : Prop :=
  id ∈ st.ids ∧ st.final id = none ∧ id ∉ st.finished ∧
    ∀ payload, q = .writing payload → outcomeOf payload = some completed

theorem Settled.setRequest (h : Settled st) (id : List UInt8) {q : Option Request}
    (hq : ∀ r, q = some r → RequestOk st id r) :
    Settled { st with requests := update st.requests id q } where
  __ := h
  requests id' r hr := by
    change update st.requests id q id' = some r at hr
    rw [update_apply] at hr
    split at hr
    · next hid => exact hid ▸ hq r hr
    · exact h.requests id' r hr

variable {now : ℤ} {id : List UInt8}

theorem mem_kept {row : EventRow} (h : row ∈ kept st now) : row ∈ st.events :=
  (mem_filter.mp h).1

theorem Settled.final_of_new (h : Settled st) (hid : id ∉ st.ids) : st.final id = none := by
  cases hf : st.final id with
  | none => rfl
  | some payload => exact absurd (h.final id payload hf).1 hid

/-- A new event is not ready. -/
theorem Settled.beginTx (h : Settled st) (hid : id ∉ st.ids) (principal method path : List UInt8)
    (now : ℤ) : Settled (beginTx st id principal method path now) := by
  have hids : ∀ {i}, i ∈ st.ids → i ∈ (Webhooks.beginTx st id principal method path now).ids :=
    fun hi => mem_cons_of_mem _ hi
  have hrow : ∀ row ∈ (Webhooks.beginTx st id principal method path now).events,
      row ∈ st.events ∨ row = ⟨id, (newEvent id principal method path now).payload, false,
        unix now⟩ := by
    intro row hrow
    exact (mem_append.mp hrow).imp mem_kept mem_singleton.mp
  refine
    { rows := ?_, begun := ?_, waiting := ?_, ready := ?_
      transmitted := h.transmitted
      items := h.items
      requests := fun i q hq => ⟨hids (h.requests i q hq).1, (h.requests i q hq).2⟩
      final := fun i payload hf => ⟨hids (h.final i payload hf).1, (h.final i payload hf).2⟩
      finished := fun i hi => ⟨hids (h.finished i hi).1, fun row hr heq => ?_⟩ }
  · rw [Webhooks.beginTx, map_append, nodup_append]
    refine ⟨h.rows.sublist (filter_sublist.map _), nodup_singleton _, ?_⟩
    rintro x hx y hy rfl
    obtain ⟨row, hr, rfl⟩ := mem_map.mp hx
    have heq : row.id = id := mem_singleton.mp hy
    exact hid (heq ▸ h.begun row (mem_kept hr))
  · intro row hr
    rcases hrow row hr with hold | rfl
    · exact hids (h.begun row hold)
    · exact mem_cons_self
  · intro row hr hready
    rcases hrow row hr with hold | rfl
    · exact h.waiting row hold hready
    · exact ⟨h.final_of_new hid, _, rfl⟩
  · intro row hr hready
    rcases hrow row hr with hold | rfl
    · exact h.ready row hold hready
    · cases hready
  · rcases hrow row hr with hold | rfl
    · exact (h.finished i hi).2 row hold heq
    · have heq' : id = i := heq
      exact absurd (heq' ▸ (h.finished i hi).1) hid

theorem writePayload_final (st : State) (id payload i : List UInt8) :
    (writePayload st id payload).final i =
      if st.events.any (·.id = id) ∧ i = id then some payload else st.final i := by
  by_cases hany : st.events.any (·.id = id) = true
  · simp only [writePayload, hany, if_true, update_apply, true_and]
  · simp only [writePayload, hany, if_false, false_and, Bool.false_eq_true]

/-- The row with the payload of `Finish`. -/
theorem Settled.writePayload (h : Settled st) {payload : List UInt8} (hfinal : st.final id = none)
    (hid : id ∈ st.ids) (hrequest : st.requests id = none)
    (houtcome : outcomeOf payload = some completed) : Settled (writePayload st id payload) := by
  have hother : ∀ {i}, i ≠ id → (Webhooks.writePayload st id payload).final i = st.final i := by
    intro i hi
    rw [writePayload_final, if_neg fun hc => hi hc.2]
  have hsame : ∀ {i p}, st.final i = some p →
      (Webhooks.writePayload st id payload).final i = some p := by
    intro i p hp
    rw [hother, hp]
    rintro rfl
    rw [hfinal] at hp
    cases hp
  -- a row is as it was, or it is the one that was written
  have hrow : ∀ row ∈ (Webhooks.writePayload st id payload).events,
      row ∈ st.events ∧ row.id ≠ id ∨ row.id = id ∧ row.payload = payload ∧ row.ready = true ∧
        (Webhooks.writePayload st id payload).final id = some payload := by
    intro row' hr'
    obtain ⟨row, hr, rfl⟩ := mem_map.mp hr'
    by_cases hrid : row.id = id
    · right
      rw [if_pos hrid]
      refine ⟨hrid, rfl, rfl, ?_⟩
      have hany : st.events.any (·.id = id) = true :=
        any_eq_true.mpr ⟨row, hr, decide_eq_true hrid⟩
      rw [writePayload_final, if_pos ⟨hany, rfl⟩]
    · rw [if_neg hrid]
      exact .inl ⟨hr, hrid⟩
  refine
    { rows := ?_, begun := ?_, waiting := ?_, ready := ?_
      transmitted := fun t ht => hsame (h.transmitted t ht)
      items := fun v hv => hsame (h.items v hv)
      requests := fun i q hq => ?_
      final := fun i p hp => ?_
      finished := fun i hi => ⟨(h.finished i hi).1, fun row hr heq => ?_⟩ }
  · have hmap : (Webhooks.writePayload st id payload).events.map EventRow.id =
        st.events.map EventRow.id := by
      rw [Webhooks.writePayload, map_map]
      refine map_congr_left fun row _ => ?_
      rw [comp_apply]
      split <;> rfl
    rw [hmap]
    exact h.rows
  · intro row hr
    rcases hrow row hr with ⟨hold, -⟩ | ⟨heq, -⟩
    · exact h.begun row hold
    · rw [heq]
      exact hid
  · intro row hr hready
    rcases hrow row hr with ⟨hold, hne⟩ | ⟨-, -, hready', -⟩
    · rw [hother hne]
      exact h.waiting row hold hready
    · rw [hready] at hready'
      cases hready'
  · intro row hr hready
    rcases hrow row hr with ⟨hold, -⟩ | ⟨heq, hpayload, -, hnew⟩
    · exact hsame (h.ready row hold hready)
    · rw [heq, hpayload]
      exact hnew
  · obtain ⟨hids, hnone, hrest⟩ := h.requests i q hq
    refine ⟨hids, ?_, hrest⟩
    rw [hother, hnone]
    rintro rfl
    rw [show st.requests i = some q from hq] at hrequest
    cases hrequest
  · by_cases hi : i = id
    · subst hi
      refine ⟨hid, .inl ?_⟩
      rw [writePayload_final] at hp
      split at hp
      · exact Option.some.inj hp ▸ houtcome
      · rw [hfinal] at hp
        cases hp
    · exact h.final i p (hother hi ▸ hp)
  · rcases hrow row hr with ⟨hold, -⟩ | ⟨-, -, hready, -⟩
    · exact (h.finished i hi).2 row hold heq
    · exact hready

/-- A new worker, or none. -/
theorem Settled.setWorker (h : Settled st) {w : Worker}
    (hw : ∀ v ∈ w.items, st.final v.id = some v.raw) : Settled { st with worker := w } where
  __ := h
  items := hw

theorem readItem_final (h : Settled st) {pick : List UInt8 × List UInt8} {v : Item}
    (hv : readItem st now pick = some v) : st.final v.id = some v.raw := by
  unfold readItem at hv
  split at hv
  · next row d hrow hd =>
    cases hv
    have hmem := mem_of_find?_eq_some hrow
    have hrow' := find?_some hrow
    have hd' := find?_some hd
    simp only [Bool.and_eq_true, decide_eq_true_eq] at hrow' hd'
    rw [hd'.1.1.1, ← hrow'.1]
    exact h.ready row hmem hrow'.2
  · cases hv

theorem mem_mapM {α β : Type} {f : α → Option β} {xs : List α} {ys : List β}
    (h : xs.mapM f = some ys) {y : β} (hy : y ∈ ys) : ∃ x ∈ xs, f x = some y := by
  induction xs generalizing ys with
  | nil =>
    cases h
    cases hy
  | cons x xs ih =>
    rw [mapM_cons] at h
    obtain ⟨z, hz, h⟩ := Option.bind_eq_some_iff.mp h
    obtain ⟨zs, hzs, h⟩ := Option.bind_eq_some_iff.mp h
    cases h
    rcases mem_cons.mp hy with rfl | hy
    · exact ⟨x, mem_cons_self, hz⟩
    · obtain ⟨x', hx', heq⟩ := ih hzs hy
      exact ⟨x', mem_cons_of_mem _ hx', heq⟩

/-- `Finish` succeeded. -/
theorem Settled.finish (h : Settled st) (hid : id ∈ st.ids) (hrequest : st.requests id = none)
    (hready : ∀ row ∈ st.events, row.id = id → row.ready = true)
    (hfinal : ∀ payload, st.final id = some payload → outcomeOf payload = some completed) :
    Settled { st with finished := id :: st.finished } where
  __ := h
  requests i q hq := by
    obtain ⟨hids, hnone, hfinished, hrest⟩ := h.requests i q hq
    refine ⟨hids, hnone, ?_, hrest⟩
    rw [mem_cons, not_or]
    refine ⟨?_, hfinished⟩
    rintro rfl
    rw [show st.requests i = some q from hq] at hrequest
    cases hrequest
  final i payload hp := by
    by_cases hi : i = id
    · exact ⟨hi ▸ hid, .inl (hfinal payload (hi ▸ hp))⟩
    · refine (h.final i payload hp).imp_right (.imp_right (.imp_right fun hn => ?_))
      rw [mem_cons, not_or]
      exact ⟨hi, hn⟩
  finished i hi := by
    rcases mem_cons.mp hi with rfl | hi
    · exact ⟨hid, hready⟩
    · exact h.finished i hi

theorem Settled.finishWrite (h : Settled st) {payload : List UInt8} {o : Outcome}
    (hq : st.requests id = some (.writing payload))
    (hstep : step st (.finishWrite id o) = some st') : Settled st' := by
  obtain ⟨hid, hfinal, -, houtcome⟩ := h.requests id _ hq
  have hnone : update st.requests id none id = none := update_self ..
  have h₁ : Settled { st with requests := update st.requests id none } :=
    h.setRequest id (by simp)
  have h₂ := h₁.writePayload hfinal hid hnone (houtcome payload rfl)
  simp only [step, hq] at hstep
  cases o with
  | undone =>
    cases hstep
    exact h₁
  | doneWithError =>
    cases hstep
    exact h₂
  | done =>
    cases hstep
    refine h₂.finish hid hnone ?_ ?_
    · intro row' hr'
      obtain ⟨row, hr, rfl⟩ := mem_map.mp hr'
      split
      · exact fun _ => rfl
      · next hne => exact fun heq => absurd heq hne
    · intro p hp
      rw [writePayload_final] at hp
      split at hp
      · exact Option.some.inj hp ▸ houtcome payload rfl
      · rw [hfinal] at hp
        cases hp

/-- The process stops: what was not finished is ready as it is. -/
theorem Settled.restart (h : Settled st) {hooks : List (List UInt8)}
    (hstep : step st (.restart hooks) = some st') : Settled st' := by
  have hst : st' = _ := (Option.some.inj hstep).symm
  have hkeep : ∀ {i p}, st.final i = some p → st'.final i = some p := by
    intro i p hp
    rw [hst]
    dsimp only
    split
    · next row hrow =>
      have hwait := find?_some hrow
      simp only [Bool.and_eq_true, decide_eq_true_eq, Bool.not_eq_true'] at hwait
      have hnone := (h.waiting row (mem_of_find?_eq_some hrow) hwait.2).1
      rw [hwait.1, hp] at hnone
      cases hnone
    · exact hp
  have hnew : ∀ row ∈ st.events, st'.final row.id = some row.payload := by
    intro row hr
    cases hready : row.ready with
    | true => exact hkeep (h.ready row hr hready)
    | false =>
      rw [hst]
      dsimp only
      split
      · next row' hrow =>
        have hwait := find?_some hrow
        simp only [Bool.and_eq_true, decide_eq_true_eq] at hwait
        rw [inj_on_of_nodup_map h.rows (mem_of_find?_eq_some hrow) hr hwait.1]
      · next hrow =>
        have hno := find?_eq_none.mp hrow row hr
        simp [hready] at hno
  have hrows : ∀ row' ∈ st'.events, ∃ row ∈ st.events, row' = { row with ready := true } := by
    intro row' hr'
    rw [hst] at hr'
    obtain ⟨row, hr, heq⟩ := mem_map.mp hr'
    exact ⟨row, hr, heq.symm⟩
  have hids : st'.ids = st.ids := by rw [hst]; rfl
  refine
    { rows := ?_, begun := fun row' hr' => ?_, waiting := fun row' hr' hready => ?_
      ready := fun row' hr' _ => ?_
      transmitted := fun t ht => hkeep (h.transmitted t (by rwa [hst] at ht))
      items := fun v hv => by rw [hst] at hv; cases hv
      requests := fun i q hq => by rw [hst] at hq; cases hq
      final := fun i p hp => ?_
      finished := fun i hi => ⟨?_, fun row' hr' _ => ?_⟩ }
  · have hmap : st'.events.map EventRow.id = st.events.map EventRow.id := by
      rw [hst, map_map]
      rfl
    rw [hmap]
    exact h.rows
  · obtain ⟨row, hr, rfl⟩ := hrows row' hr'
    exact hids ▸ h.begun row hr
  · obtain ⟨row, hr, rfl⟩ := hrows row' hr'
    cases hready
  · obtain ⟨row, hr, rfl⟩ := hrows row' hr'
    exact hnew row hr
  · rw [hst] at hp
    dsimp only at hp
    rw [hids]
    split at hp
    · next row hrow =>
      have hwait := find?_some hrow
      simp only [Bool.and_eq_true, decide_eq_true_eq, Bool.not_eq_true'] at hwait
      have hr := mem_of_find?_eq_some hrow
      -- a row that waits was not finished, so the process stopped before that
      have hnot : i ∉ st.finished := by
        intro hi
        have hready := (h.finished i hi).2 row hr hwait.1
        rw [hwait.2] at hready
        cases hready
      have hi : i ∈ st.ids := hwait.1 ▸ h.begun row hr
      refine ⟨hi, .inr ?_⟩
      rw [hst]
      refine ⟨mem_append_left _ (mem_filter.mpr ⟨hi, decide_eq_true hnot⟩), hnot⟩
    · refine (h.final i p hp).imp_right (.imp_right ?_)
      rw [hst]
      exact .imp_left (mem_append_right _)
  · rw [hst] at hi
    exact hids ▸ (h.finished i hi).1
  · obtain ⟨row, hr, rfl⟩ := hrows row' hr'
    rfl

/-- **What one step preserves.** -/
theorem Settled.step (h : Settled st) (hstep : step st a = some st') : Settled st' := by
  cases a with
  | begin id principal method path now o =>
    simp only [step] at hstep
    split_ifs at hstep with hid hfull ho
    · cases hstep
      exact h
    · cases hstep
      refine (h.beginTx hid principal method path now).setRequest id fun r hr => ?_
      cases hr
      refine ⟨mem_cons_self, h.final_of_new hid, ?_, nofun⟩
      exact fun hi => hid (h.finished id hi).1
    · cases hstep
      exact h.beginTx hid principal method path now
  | finishRead id status =>
    simp only [step] at hstep
    split at hstep
    · next hq =>
      have hok := h.requests id _ hq
      split at hstep
      · cases hstep
        exact h.setRequest id (by simp)
      · next e he =>
        cases hstep
        obtain ⟨row, hrow, he⟩ := Option.bind_eq_some_iff.mp he
        have hr := mem_of_find?_eq_some hrow
        have hid : row.id = id := by simpa using find?_some hrow
        obtain ⟨e₀, he₀⟩ : ∃ e : Event, row.payload = e.payload := by
          cases hready : row.ready with
          | true =>
            have hsome := h.ready row hr hready
            rw [hid, hok.2.1] at hsome
            cases hsome
          | false => exact (h.waiting row hr hready).2
        refine h.setRequest id fun r hreq => ?_
        cases hreq
        refine ⟨hok.1, hok.2.1, hok.2.2.1, fun payload hp => ?_⟩
        cases hp
        exact outcomeOf_finished (he₀ ▸ he) status
    · cases hstep
  | finishWrite id o =>
    cases hq : st.requests id with
    | none => simp [step, hq] at hstep
    | some q =>
      cases q with
      | handling => simp [step, hq] at hstep
      | writing payload => exact h.finishWrite hq hstep
  | drop id =>
    cases hstep
    exact h.setRequest id (by simp)
  | dispatchRead now picked =>
    simp only [step] at hstep
    split at hstep
    · split at hstep
      · cases hstep
      · obtain ⟨items, hitems, rfl⟩ := Option.map_eq_some_iff.mp hstep
        refine h.setWorker fun v hv => ?_
        obtain ⟨pick, -, hread⟩ := mem_mapM hitems hv
        exact readItem_final h hread
    · cases hstep
  | dispatchSend reaches acknowledged =>
    simp only [step] at hstep
    split at hstep
    · next v rest hw =>
      split at hstep
      · cases hstep
        have hitems : ∀ u ∈ v :: rest, st.final u.id = some u.raw := fun u hu =>
          h.items u (by rw [hw]; exact hu)
        refine { h with items := hitems, transmitted := fun t ht => ?_ }
        split at ht
        · rcases mem_cons.mp ht with rfl | ht
          · exact hitems v mem_cons_self
          · exact h.transmitted t ht
        · exact h.transmitted t ht
      · cases hstep
    · cases hstep
  | dispatchUpdate now o =>
    simp only [step] at hstep
    split at hstep
    · next v sent rest hw =>
      cases hstep
      refine { h with items := fun u hu => ?_ }
      change u ∈ (if o = .done then Worker.sending rest else .idle).items at hu
      split at hu
      · exact h.items u (by rw [hw]; exact mem_cons_of_mem _ hu)
      · cases hu
    · cases hstep
  | dispatchStop =>
    cases hstep
    exact h.setWorker nofun
  | retry =>
    cases hstep
    exact { h with }
  | restart hooks => exact h.restart hstep

end Payloads

/-! ### Acknowledgements -/

section Acknowledgements

variable {st st' : State} {a : Action}

def Delivery.key (d : Delivery) : List UInt8 × List UInt8 := (d.event, d.destination)

def State.rowIds (st : State) : List (List UInt8) := st.events.map EventRow.id

/-- What holds of the deliveries. -/
structure Accounted (st : State) : Prop where
  sent : ∀ d ∈ st.deliveries, d.state = .sent → d.key ∈ st.acked
  updating : ∀ v rest, st.worker = .updating v true rest → (v.id, v.dest) ∈ st.acked
  kept : ∀ b ∈ st.begun, b.1 ∈ st.rowIds →
    ∀ dest ∈ b.2, (b.1, dest) ∈ st.deliveries.map Delivery.key
  evicted : ∀ b ∈ st.begun, b.1 ∉ st.rowIds → ∀ dest ∈ b.2, (b.1, dest) ∈ st.acked

/-- A step that has the same events and deliveries. -/
theorem Accounted.same (h : Accounted st) (hids : st'.rowIds = st.rowIds)
    (hbegun : st'.begun = st.begun)
    (hkeys : st'.deliveries.map Delivery.key = st.deliveries.map Delivery.key)
    (hacked : st.acked ⊆ st'.acked)
    (hsent : ∀ d ∈ st'.deliveries, d.state = .sent → d.key ∈ st'.acked)
    (hupdating : ∀ v rest, st'.worker = .updating v true rest → (v.id, v.dest) ∈ st'.acked) :
    Accounted st' where
  sent := hsent
  updating := hupdating
  kept := by
    rw [hbegun, hids, hkeys]
    exact h.kept
  evicted := by
    rw [hbegun, hids]
    exact fun b hb hgone dest hdest => hacked (h.evicted b hb hgone dest hdest)

/-- **An event that `Begin` evicts has been acknowledged everywhere.** -/
theorem Accounted.acked_of_evicted (h : Accounted st) {now : ℤ} {b}
    (hb : b ∈ st.begun) (hgone : b.1 ∉ (Webhooks.kept st now).map EventRow.id) :
    ∀ dest ∈ b.2, (b.1, dest) ∈ st.acked := by
  intro dest hdest
  by_cases hrow : b.1 ∈ st.rowIds
  · obtain ⟨row, hr, hid⟩ := mem_map.mp hrow
    obtain ⟨d, hd, hkey⟩ := mem_map.mp (h.kept b hb hrow dest hdest)
    have hkeeps : ¬ keeps st (unix (now - 7 * 24 * 3600 * 1000000000)) row = true := fun hk =>
      hgone (mem_map.mpr ⟨row, mem_filter.mpr ⟨hr, hk⟩, hid⟩)
    simp only [keeps, Bool.not_eq_true, Bool.not_eq_false', Bool.and_eq_true, all_eq_true,
      Bool.or_eq_true, decide_eq_true_eq] at hkeeps
    have hevent : d.event = row.id := by rw [hid, ← congrArg Prod.fst hkey, Delivery.key]
    rw [← hkey]
    exact h.sent d hd ((hkeeps.2 d hd).resolve_left fun hne => hne hevent)
  · exact h.evicted b hb hrow dest hdest

theorem Accounted.beginTx (h : Accounted st) {id : List UInt8} (hid : id ∉ st.ids)
    (principal method path : List UInt8) (now : ℤ) :
    Accounted (beginTx st id principal method path now) := by
  have hids : (Webhooks.beginTx st id principal method path now).rowIds =
      (Webhooks.kept st now).map EventRow.id ++ [id] := by
    rw [State.rowIds, Webhooks.beginTx, map_append]
    rfl
  have hold : ∀ b ∈ st.begun, b.1 ≠ id := by
    rintro b hb rfl
    exact hid (mem_map_of_mem hb)
  refine
    { sent := fun d hd hsent => ?_
      updating := h.updating
      kept := fun b hb hrow dest hdest => ?_
      evicted := fun b hb hgone => ?_ }
  · rcases mem_append.mp hd with hd | hd
    · exact h.sent d (mem_filter.mp hd).1 hsent
    · obtain ⟨hook, -, rfl⟩ := mem_map.mp hd
      cases hsent
  · rw [Webhooks.beginTx, map_append, mem_append]
    rcases mem_cons.mp hb with rfl | hb
    · refine .inr (mem_map.mpr ⟨⟨id, dest, 0, 0, .pending⟩, ?_, rfl⟩)
      exact mem_map.mpr ⟨dest, hdest, rfl⟩
    · rw [hids, mem_append, mem_singleton] at hrow
      obtain ⟨row, hr, heq⟩ := mem_map.mp (hrow.resolve_right (hold b hb))
      obtain ⟨d, hd, hkey⟩ := mem_map.mp
        (h.kept b hb (mem_map.mpr ⟨row, mem_kept hr, heq⟩) dest hdest)
      refine .inl (mem_map.mpr ⟨d, mem_filter.mpr ⟨hd, ?_⟩, hkey⟩)
      refine any_eq_true.mpr ⟨row, hr, decide_eq_true ?_⟩
      rw [heq, ← congrArg Prod.fst hkey, Delivery.key]
  · rw [hids, mem_append, mem_singleton, not_or] at hgone
    rcases mem_cons.mp hb with rfl | hb
    · exact absurd rfl hgone.2
    · exact h.acked_of_evicted hb hgone.1

theorem rowIds_writePayload (st : State) (id payload : List UInt8) :
    (writePayload st id payload).rowIds = st.rowIds := by
  rw [State.rowIds, writePayload, map_map]
  refine map_congr_left fun row _ => ?_
  rw [comp_apply]
  split <;> rfl

theorem key_attempted (now : ℤ) (sent : Bool) (v : Item) (d : Delivery) :
    (attempted now sent v d).key = d.key := by
  rw [attempted]
  split <;> rfl

/-- **What one step preserves.** -/
theorem Accounted.step (h : Accounted st) (hstep : step st a = some st') : Accounted st' := by
  cases a with
  | begin id principal method path now o =>
    simp only [step] at hstep
    split_ifs at hstep with hid hfull ho
    · cases hstep
      exact h
    · cases hstep
      exact { h.beginTx hid principal method path now with }
    · cases hstep
      exact h.beginTx hid principal method path now
  | finishRead id status =>
    simp only [step] at hstep
    split at hstep
    · split at hstep <;> cases hstep <;> exact { h with }
    · cases hstep
  | finishWrite id o =>
    simp only [step] at hstep
    split at hstep
    · next payload _ =>
      have hids := rowIds_writePayload
        { st with requests := update st.requests id none } id payload
      cases o <;> cases hstep
      · exact h.same hids rfl rfl (.refl _) h.sent h.updating
      · exact { h with }
      · exact h.same hids rfl rfl (.refl _) h.sent h.updating
    · cases hstep
  | drop id =>
    cases hstep
    exact { h with }
  | dispatchRead now picked =>
    simp only [step] at hstep
    split at hstep
    · split at hstep
      · cases hstep
      · obtain ⟨items, -, rfl⟩ := Option.map_eq_some_iff.mp hstep
        exact { h with updating := nofun }
    · cases hstep
  | dispatchSend reaches acknowledged =>
    simp only [step] at hstep
    split at hstep
    · next v rest hw =>
      split at hstep
      · cases hstep
        have hmore : st.acked ⊆
            if acknowledged then (v.id, v.dest) :: st.acked else st.acked := by
          split
          · exact subset_cons_self ..
          · exact .refl _
        refine h.same rfl rfl rfl hmore (fun d hd hs => hmore (h.sent d hd hs)) ?_
        intro u rest' hu
        cases hu
        exact mem_cons_self
      · cases hstep
    · cases hstep
  | dispatchUpdate now o =>
    simp only [step] at hstep
    split at hstep
    · next v sent rest hw =>
      cases hstep
      refine h.same rfl rfl ?_ (.refl _) ?_ ?_
      · dsimp only
        split
        · rw [map_map]
          exact map_congr_left fun d _ => key_attempted now sent v d
        · rfl
      · dsimp only
        split
        · intro d' hd' hs
          obtain ⟨d, hd, rfl⟩ := mem_map.mp hd'
          rw [key_attempted]
          unfold attempted at hs
          split at hs
          · next heq =>
            -- only an acknowledged attempt is recorded as sent
            cases sent with
            | true =>
              rw [Delivery.key, heq.1, heq.2]
              exact h.updating v rest hw
            | false =>
              dsimp only at hs
              rw [if_neg Bool.false_ne_true] at hs
              split at hs <;> cases hs
          · exact h.sent d hd hs
        · exact h.sent
      · dsimp only
        split <;> exact nofun
    · cases hstep
  | dispatchStop =>
    cases hstep
    exact { h with updating := nofun }
  | retry =>
    cases hstep
    refine h.same rfl rfl ?_ (.refl _) ?_ h.updating
    · rw [map_map]
      refine map_congr_left fun d _ => ?_
      rw [comp_apply]
      split <;> rfl
    · intro d' hd' hs
      obtain ⟨d, hd, rfl⟩ := mem_map.mp hd'
      split at hs
      · cases hs
      · next hdead =>
        rw [if_neg hdead]
        exact h.sent d hd hs
  | restart hooks =>
    cases hstep
    refine h.same ?_ rfl rfl (.refl _) h.sent nofun
    rw [State.rowIds, map_map]
    rfl

end Acknowledgements

/-! ### Runs -/

section Runs

variable {st st' : State} {actions : List Action}

theorem run_induction {P : State → Prop}
    (hP : ∀ {st st' a}, P st → step st a = some st' → P st')
    (h : P st) (hrun : run st actions = some st') : P st' := by
  induction actions generalizing st with
  | nil => exact Option.some.inj hrun ▸ h
  | cons a actions ih =>
    obtain ⟨mid, hstep, hrun⟩ := Option.bind_eq_some_iff.mp hrun
    exact ih (hP h hstep) hrun

theorem settled_empty : Settled {} := by
  constructor <;> first | exact nodup_nil | nofun

theorem accounted_empty : Accounted {} := by
  constructor <;> nofun

/-- **Webhook events are delivered consistently.**  Over every run from an empty outbox,
what is transmitted of one event is always the same payload; that says that the
request was completed if `Finish` succeeded, and that it was interrupted only if the
process stopped before; and an event that is no longer in its table has been
acknowledged by every destination it began with. -/
theorem events_consistent (hrun : run {} actions = some st) :
    (∀ t ∈ st.transmitted, ∀ u ∈ st.transmitted, t.id = u.id → t.payload = u.payload) ∧
    (∀ t ∈ st.transmitted, t.id ∈ st.finished → outcomeOf t.payload = some completed) ∧
    (∀ t ∈ st.transmitted, outcomeOf t.payload = some interrupted →
      t.id ∈ st.stopped ∧ t.id ∉ st.finished) ∧
    ∀ b ∈ st.begun, b.1 ∉ st.rowIds → ∀ dest ∈ b.2, (b.1, dest) ∈ st.acked := by
  have h : Settled st := run_induction .step settled_empty hrun
  have hacked : Accounted st := run_induction .step accounted_empty hrun
  have hdiffer : completed ≠ interrupted := by decide
  refine ⟨fun t ht u hu heq => ?_, fun t ht hfin => ?_, fun t ht hout => ?_, hacked.evicted⟩
  · have hpayload := h.transmitted u hu
    rw [← heq, h.transmitted t ht] at hpayload
    exact Option.some.inj hpayload
  · exact (h.final t.id t.payload (h.transmitted t ht)).2.resolve_right fun hn => hn.2 hfin
  · refine (h.final t.id t.payload (h.transmitted t ht)).2.resolve_left fun hc => ?_
    rw [hout] at hc
    exact hdiffer (Option.some.inj hc).symm

def noon : ℤ := 63900000000 * 1000000000

/-- A request that is completed, and one at which the process stops; both events are
transmitted to a receiver. -/
def twoRequests : List Action :=
  [.restart [bytes "ops"],
    .begin (bytes "1") (bytes "root") (bytes "PUT") (bytes "/a") noon .done,
    .finishRead (bytes "1") 200, .finishWrite (bytes "1") .done,
    .begin (bytes "2") (bytes "root") (bytes "PUT") (bytes "/b") noon .done,
    .restart [bytes "ops"],
    .dispatchRead noon [(bytes "1", bytes "ops"), (bytes "2", bytes "ops")],
    .dispatchSend true false, .dispatchUpdate noon .done,
    .dispatchSend true true, .dispatchUpdate noon .done]

theorem events_consistent_twoRequests : ∃ st, run {} twoRequests = some st ∧
    st.transmitted.map (fun t => (t.id, outcomeOf t.payload)) =
      [(bytes "2", some interrupted), (bytes "1", some completed)] ∧
    (∀ t ∈ st.transmitted, ∀ u ∈ st.transmitted, t.id = u.id → t.payload = u.payload) ∧
    (∀ t ∈ st.transmitted, t.id ∈ st.finished → outcomeOf t.payload = some completed) ∧
    (∀ t ∈ st.transmitted, outcomeOf t.payload = some interrupted →
      t.id ∈ st.stopped ∧ t.id ∉ st.finished) ∧
    ∀ b ∈ st.begun, b.1 ∉ st.rowIds → ∀ dest ∈ b.2, (b.1, dest) ∈ st.acked := by
  have hrun : (run {} twoRequests).map
      (fun st => st.transmitted.map fun t => (t.id, outcomeOf t.payload)) =
      some [(bytes "2", some interrupted), (bytes "1", some completed)] := by decide +kernel
  obtain ⟨st, hst, hsent⟩ := Option.map_eq_some_iff.mp hrun
  exact ⟨st, hst, hsent, events_consistent hst⟩

end Runs

end EmailService.Webhooks
