/-
EmailService/DeadLetter.lean

The dead letter queue against the failed part of the index.

`dlq` is a second table, kept by hand: `UpdateStatus` and `RetryFromDLQ`
maintain it, the other operations do not look at it, and `recover` rebuilds it
from three of the statuses it meets.  `DLQExact` says that it holds the failed
entries of the index and nothing else.

Which logs recover to exact tables is settled by `dlqExact_recoverAll_iff`: the
last record of a message that failed, was delivered or was deleted must be its
last record altogether, if it is a failure.  For the operations, `Op.SparesDLQ`
is the condition under which the table stays exact.  `dlq_exact` puts the two
together over every run with failing calls, crashes and restarts, and
`retried_dlq_stale` is the run that the conditions exclude.
-/
import EmailService.Atomicity

namespace EmailService

open Traced List Function

variable {α : Type} {t t' : Tables} {id : String} {e : JournalEntry}

/-! ### Exact tables -/

/-- The dead letter queue is the failed part of the index. -/
def DLQExact (t : Tables) : Prop :=
  ∀ id e, t.dlq id = some e ↔ t.index id = some e ∧ e.status = "failed"

/-- Exact tables, with every entry under its own message ID. -/
structure DeadLetters (t : Tables) : Prop where
  keyed : ∀ id e, t.index id = some e → e.messageID = id
  exact : DLQExact t

/-- The index holds a failed entry under `id`. -/
def FailedAt (t : Tables) (id : String) : Prop :=
  ∃ e, t.index id = some e ∧ e.status = "failed"

variable {x : Option JournalEntry} {es : List JournalEntry}

section

variable (h : DeadLetters t)

include h

/-- One key changes in both tables, and is exact afterwards. -/
theorem DeadLetters.update {y : Option JournalEntry}
    (hindex : t'.index = update t.index id x) (hdlq : t'.dlq = update t.dlq id y)
    (hkeyed : ∀ e, x = some e → e.messageID = id)
    (hexact : ∀ e, y = some e ↔ x = some e ∧ e.status = "failed") : DeadLetters t' := by
  constructor
  · intro id' e' he'
    rw [hindex] at he'
    by_cases hk : id' = id
    · subst hk
      rw [update_self] at he'
      exact hkeyed e' he'
    · rw [update_of_ne hk] at he'
      exact h.keyed id' e' he'
  · intro id' e'
    rw [hindex, hdlq]
    by_cases hk : id' = id
    · subst hk
      rw [update_self, update_self]
      exact hexact e'
    · rw [update_of_ne hk, update_of_ne hk]
      exact h.exact id' e'

theorem DeadLetters.dlq_eq_none (hid : ¬ FailedAt t id) :
    t.dlq id = none := by
  rcases hd : t.dlq id with - | e
  · rfl
  · exact absurd ⟨e, (h.exact id e).mp hd⟩ hid

/-- The dead letter queue has nothing to do with a key that has not failed. -/
theorem DeadLetters.update_index (hindex : t'.index = Function.update t.index id x)
    (hdlq : t'.dlq = t.dlq)
    (hold : ¬ FailedAt t id) (hnew : ∀ e, x = some e → e.messageID = id ∧ e.status ≠ "failed") :
    DeadLetters t' := by
  apply h.update (y := none) hindex
  · rw [hdlq, ← h.dlq_eq_none hold, update_eq_self]
  · exact fun e he => (hnew e he).1
  · intro e
    constructor
    · intro he
      cases he
    · rintro ⟨he, hfailed⟩
      exact absurd hfailed (hnew e he).2

theorem DeadLetters.put (hold : ¬ FailedAt t id) (hid : e.messageID = id)
    (hnew : e.status ≠ "failed") : DeadLetters (t.put id e) := by
  apply h.update_index (t.put_index id e) (t.put_dlq id e) hold
  intro e' he'
  cases he'
  exact ⟨hid, hnew⟩

theorem DeadLetters.drop (hold : ¬ FailedAt t id) :
    DeadLetters (t.drop id) := by
  apply h.update_index (t.drop_index id) (t.drop_dlq id) hold
  intro e' he'
  cases he'

end

theorem not_failedAt_of_none (h : t.index id = none) : ¬ FailedAt t id := by
  rintro ⟨e, he, -⟩
  rw [h] at he
  cases he

theorem not_failedAt_of_status (h : t.index id = some e) (hs : e.status ≠ "failed") :
    ¬ FailedAt t id := by
  rintro ⟨e', he', hfailed⟩
  rw [h] at he'
  cases he'
  exact hs hfailed

/-- Dropping entries that have not failed, one after the other. -/
theorem DeadLetters.foldl_drop {ids : List String} (h : DeadLetters t)
    (hids : ∀ id ∈ ids, ¬ FailedAt t id) : DeadLetters (ids.foldl Tables.drop t) := by
  induction ids generalizing t with
  | nil => exact h
  | cons id ids ih =>
    apply ih (h.drop (hids id mem_cons_self))
    rintro id' hid' ⟨e, he, hfailed⟩
    -- an entry still there after the drop was there before
    by_cases hk : id' = id
    · rw [hk, Tables.drop_index, update_self] at he
      cases he
    · rw [Tables.drop_index, update_of_ne hk] at he
      exact hids id' (mem_cons_of_mem _ hid') ⟨e, he, hfailed⟩

/-! ### Recovery -/

/-- A record that `recover` applies to the dead letter queue. -/
def Settles (e : JournalEntry) : Prop := Terminal e.status ∨ e.status = "failed"

instance (e : JournalEntry) : Decidable (Settles e) := inferInstanceAs (Decidable (_ ∨ _))

/-- The last record of a message. -/
def lastRecord (es : List JournalEntry) (id : String) : Option JournalEntry :=
  es.reverse.find? fun e => e.messageID = id

/-- The last record of a message among those that settle its fate. -/
def lastSettling (es : List JournalEntry) (id : String) : Option JournalEntry :=
  es.reverse.find? fun e => e.messageID = id ∧ Settles e

/-- A failure that no delivery, deletion or later failure has settled is the
last record of its message. -/
def FailedLast (es : List JournalEntry) : Prop :=
  ∀ id e, id ≠ "" → lastSettling es id = some e → e.status = "failed" → lastRecord es id = some e

theorem recoverAll_concat (es : List JournalEntry) (e : JournalEntry) :
    recoverAll (es ++ [e]) = recoverEntry (recoverAll es) e := by
  simp [recoverAll]

theorem lastRecord_concat (es : List JournalEntry) (e : JournalEntry) (id : String) :
    lastRecord (es ++ [e]) id = if e.messageID = id then some e else lastRecord es id := by
  by_cases h : e.messageID = id <;> simp [lastRecord, h]

theorem lastSettling_concat (es : List JournalEntry) (e : JournalEntry) (id : String) :
    lastSettling (es ++ [e]) id =
      if e.messageID = id ∧ Settles e then some e else lastSettling es id := by
  by_cases h : e.messageID = id ∧ Settles e <;> simp [lastSettling, h]

theorem lastRecord_messageID (h : lastRecord es id = some e) : e.messageID = id := by
  simpa using find?_some h

/-- A last record that settles is the last one to settle. -/
theorem lastSettling_of_lastRecord (h : lastRecord es id = some e) (he : Settles e) :
    lastSettling es id = some e := by
  induction es using reverseRecOn with
  | nil => cases h
  | append_singleton es e' ih =>
    rw [lastRecord_concat] at h
    rw [lastSettling_concat]
    by_cases hid : e'.messageID = id
    · rw [if_pos hid] at h
      cases h
      rw [if_pos ⟨hid, he⟩]
    · rw [if_neg hid] at h
      rw [if_neg fun hc => hid hc.1]
      exact ih h

/-- What a replayed record does to the dead letter queue. -/
theorem recoverEntry_dlq (h : e.messageID ≠ "") :
    (recoverEntry t e).dlq =
      if Settles e then
        update t.dlq e.messageID (if e.status = "failed" then some e else none)
      else t.dlq := by
  unfold recoverEntry
  rw [if_neg h]
  by_cases hterm : e.status = "delivered" ∨ e.status = "deleted"
  · have hfailed : e.status ≠ "failed" := by
      rcases hterm with h | h <;> rw [h] <;> decide
    rw [if_pos hterm, if_pos (.inl hterm), if_neg hfailed]
    rfl
  · rw [if_neg hterm]
    by_cases hfailed : e.status = "failed"
    · rw [if_pos hfailed, if_pos (.inr hfailed), if_pos hfailed]
      rfl
    · have hs : ¬ Settles e := fun hs => hs.elim hterm hfailed
      rw [if_neg hfailed, if_neg hs]
      split_ifs <;> rfl

theorem recoverEntry_of_messageID_eq (h : e.messageID = "") : recoverEntry t e = t :=
  if_pos h

theorem recoverAll_index (es : List JournalEntry) (hid : id ≠ "") :
    (recoverAll es).index id = (lastRecord es id).bind fun e => (change e).2 := by
  induction es using reverseRecOn with
  | nil => rfl
  | append_singleton es e ih =>
    rw [recoverAll_concat, lastRecord_concat]
    by_cases hk : e.messageID = id
    · subst hk
      rw [recoverEntry_index hid, if_pos rfl]
      exact update_self ..
    · rw [if_neg hk, ← ih]
      by_cases h0 : e.messageID = ""
      · rw [recoverEntry_of_messageID_eq h0]
      · rw [recoverEntry_index h0]
        exact update_of_ne (.symm hk) ..

theorem recoverAll_dlq (es : List JournalEntry) (hid : id ≠ "") :
    (recoverAll es).dlq id = (lastSettling es id).filter fun e => e.status = "failed" := by
  induction es using reverseRecOn with
  | nil => rfl
  | append_singleton es e ih =>
    rw [recoverAll_concat, lastSettling_concat]
    by_cases h0 : e.messageID = ""
    · rw [recoverEntry_of_messageID_eq h0, if_neg fun hc => hid (hc.1.symm.trans h0), ih]
    · rw [recoverEntry_dlq h0]
      by_cases hs : Settles e
      · rw [if_pos hs]
        by_cases hk : e.messageID = id
        · subst hk
          have hlast : e.messageID = e.messageID ∧ Settles e := ⟨rfl, hs⟩
          rw [update_self, if_pos hlast]
          by_cases hf : e.status = "failed" <;> simp [hf, Option.filter]
        · rw [update_of_ne (Ne.symm hk), if_neg fun hc => hk hc.1, ih]
      · rw [if_neg hs, if_neg fun hc => hs hc.2, ih]

/-- No record is ever recovered under the empty message ID. -/
theorem recoverAll_empty_id (es : List JournalEntry) :
    (recoverAll es).index "" = none ∧ (recoverAll es).dlq "" = none := by
  induction es using reverseRecOn with
  | nil => exact ⟨rfl, rfl⟩
  | append_singleton es e ih =>
    rw [recoverAll_concat]
    by_cases h0 : e.messageID = ""
    · rw [recoverEntry_of_messageID_eq h0]
      exact ih
    · rw [recoverEntry_index h0, recoverEntry_dlq h0]
      refine ⟨(update_of_ne (.symm h0) ..).trans ih.1, ?_⟩
      split_ifs
      · exact (update_of_ne (.symm h0) ..).trans ih.2
      · exact (update_of_ne (.symm h0) ..).trans ih.2
      · exact ih.2

/-- Recovery puts back a failed entry just for a failed record. -/
theorem change_eq_failed {r : JournalEntry} (hf : e.status = "failed") :
    (change r).2 = some e ↔ r = e := by
  have hlive : ¬ Terminal e.status := by simp [hf, Terminal]
  have hown : ¬ (e.status = "processing" ∨ e.status = "queued") := by simp [hf]
  constructor
  · intro h
    by_cases hterm : Terminal r.status
    · rw [change_of_terminal hterm] at h
      cases h
    · rw [change_of_live hterm] at h
      have hr := Option.some.inj h
      unfold requeue at hr
      split_ifs at hr
      · -- a requeued record is pending
        rw [← hr] at hf
        simp at hf
      · exact hr
  · rintro rfl
    rw [change_of_live hlive, requeue, if_neg hown]

/-- **Which logs recover to exact tables.** -/
theorem dlqExact_recoverAll_iff (es : List JournalEntry) :
    DLQExact (recoverAll es) ↔ FailedLast es := by
  have hindex : ∀ {id e}, id ≠ "" → e.status = "failed" →
      ((recoverAll es).index id = some e ↔ lastRecord es id = some e) := by
    intro id e hid hf
    rw [recoverAll_index es hid, Option.bind_eq_some_iff]
    constructor
    · rintro ⟨r, hr, hc⟩
      rwa [(change_eq_failed hf).mp hc] at hr
    · exact fun hr => ⟨e, hr, (change_eq_failed hf).mpr rfl⟩
  have hdlq : ∀ {id e}, id ≠ "" →
      ((recoverAll es).dlq id = some e ↔ lastSettling es id = some e ∧ e.status = "failed") := by
    intro id e hid
    rw [recoverAll_dlq es hid, Option.filter_eq_some_iff, decide_eq_true_iff]
  constructor
  · intro h id e hid hlast hf
    exact (hindex hid hf).mp ((h id e).mp ((hdlq hid).mpr ⟨hlast, hf⟩)).1
  · intro h id e
    by_cases hid : id = ""
    · rw [hid, (recoverAll_empty_id es).1, (recoverAll_empty_id es).2]
      simp
    · rw [hdlq hid]
      constructor
      · rintro ⟨hlast, hf⟩
        exact ⟨(hindex hid hf).mpr (h id e hid hlast hf), hf⟩
      · rintro ⟨hi, hf⟩
        exact ⟨lastSettling_of_lastRecord ((hindex hid hf).mp hi) (.inr hf), hf⟩

theorem recoverAll_keyed (h : (recoverAll es).index id = some e) : e.messageID = id := by
  by_cases hid : id = ""
  · rw [hid, (recoverAll_empty_id es).1] at h
    cases h
  · rw [recoverAll_index es hid, Option.bind_eq_some_iff] at h
    obtain ⟨r, hr, hc⟩ := h
    rw [← lastRecord_messageID hr]
    by_cases hterm : Terminal r.status
    · rw [change_of_terminal hterm] at hc
      cases hc
    · rw [change_of_live hterm] at hc
      rw [← Option.some.inj hc]
      unfold requeue
      split_ifs <;> rfl

theorem DeadLetters.recoverAll (h : FailedLast es) : DeadLetters (recoverAll es) :=
  ⟨fun _ _ he => recoverAll_keyed he, (dlqExact_recoverAll_iff es).mpr h⟩

/-! ### Operations -/

/-- The condition, on the request and the tables it meets, under which an
operation that leaves the dead letter queue alone has no reason to touch it. -/
def Op.SparesDLQ (X : Externals) (t : Tables) : Op → Prop
  | .storeWithReceipt entry receipts =>
    entry.status ≠ "failed" ∧ ∀ receipt, some receipt ∈ receipts → receipt.status ≠ "failed"
  | .updateRecipients id _ => ¬ FailedAt t id
  | .transition _ fromStatus toStatus => fromStatus ≠ "failed" ∧ toStatus ≠ "failed"
  | .finishScheduled receiptID _ _ _ => ¬ FailedAt t receiptID
  | .expireWorkflowRecords now receipts sieve =>
    ∀ id e, t.index id = some e → e.status = "failed" →
      expirable X t.index now receipts sieve e = false
  | .storeNotification source _ child => ¬ FailedAt t source ∧ child.status ≠ "failed"
  | .setComplianceHold id _ _ => ¬ FailedAt t id
  | .deleteCompliance id _ => ¬ FailedAt t id
  | _ => True

section Operations

variable {X : Externals} {env : Env} {s : MessageStore α}

theorem DeadLetters.publishAll {es : List JournalEntry} (h : DeadLetters t)
    (hes : ∀ e ∈ es, ¬ FailedAt t e.messageID ∧ e.status ≠ "failed") :
    DeadLetters (publishAll es t) := by
  induction es generalizing t with
  | nil => exact h
  | cons e es ih =>
    obtain ⟨hold, hnew⟩ := hes e mem_cons_self
    apply ih (h.put hold rfl hnew)
    intro e' he'
    obtain ⟨hold', hnew'⟩ := hes e' (mem_cons_of_mem _ he')
    refine ⟨?_, hnew'⟩
    rintro ⟨e₁, he₁, hfailed⟩
    -- the key is that of the entry just put, or its entry is an old one
    by_cases hk : e'.messageID = e.messageID
    · rw [hk, Tables.put_index, update_self] at he₁
      cases he₁
      exact hnew hfailed
    · rw [Tables.put_index, update_of_ne hk] at he₁
      exact hold' ⟨e₁, he₁, hfailed⟩

theorem storeWithReceipt_spares {entry : JournalEntry} {receipts : List (Option JournalEntry)}
    (h : DeadLetters s.toTables) (hentry : entry.status ≠ "failed")
    (hreceipts : ∀ receipt, some receipt ∈ receipts → receipt.status ≠ "failed") :
    (storeWithReceipt env s entry receipts).Ensures DeadLetters s.toTables := by
  have hstatus : (withDefaults env entry).status ≠ "failed" := by
    by_cases h0 : entry.status = "" <;> simp [withDefaults, h0, hentry]
  rcases storeWithReceipt_cases env s entry receipts with
    hidle | ⟨hnone, -, batch, hbatch, ⟨-, hplan⟩ | ⟨-, hplan⟩⟩
  · exact hidle.ensures _ _
  · rw [hplan]
    intro recordID
    exact h.put (not_failedAt_of_none hnone) rfl hstatus
  · rw [hplan]
    apply h.publishAll
    intro e he
    rcases mem_cons.mp he with rfl | he
    · exact ⟨not_failedAt_of_none hnone, hstatus⟩
    · obtain ⟨hmem, -, hfresh⟩ := collectReceipts_ok hbatch e he
      exact ⟨not_failedAt_of_none hfresh, hreceipts e hmem⟩

/-- `UpdateStatus` keeps both tables in step, whatever the status. -/
theorem DeadLetters.publishStatus (h : DeadLetters t) {status : String} (hid : e.messageID = id)
    (hs : e.status = status) : DeadLetters (publishStatus id status e t) := by
  apply h.update (publishStatus_index id status e t)
    (y := if status = "failed" then some e else none)
  · unfold EmailService.publishStatus
    by_cases hf : status = "failed"
    · simp [hf]
    · by_cases hterm : status = "delivered" ∨ status = "deleted" <;> simp [hf, hterm]
  · intro e' he'
    split_ifs at he'
    cases he'
    exact hid
  · intro e'
    by_cases hf : status = "failed"
    · have hlive : ¬ Terminal status := by simp [hf, Terminal]
      rw [if_pos hf, if_neg hlive]
      refine ⟨fun he' => ⟨he', ?_⟩, fun he' => he'.1⟩
      cases he'
      exact hs.trans hf
    · rw [if_neg hf]
      constructor
      · intro he'
        cases he'
      · rintro ⟨he', hfailed⟩
        split_ifs at he'
        cases he'
        exact absurd (hs.symm.trans hfailed) hf

section

variable (h : DeadLetters s.toTables)

include h

theorem updateStatus_spares (id status errorMsg : String) :
    (updateStatus env s id status errorMsg).Ensures DeadLetters s.toTables := by
  rcases updateStatus_cases env s id status errorMsg with hidle | ⟨e, he, -, hplan⟩
  · exact hidle.ensures _ _
  · rw [hplan]
    intro recordID
    apply h.publishStatus
    · exact (withStatus_messageID status errorMsg e).trans (h.keyed id e he)
    · exact withStatus_status status errorMsg e

theorem updateRecipients_spares {recipients : List String}
    (hid : ¬ FailedAt s.toTables id) :
    (updateRecipients s id recipients).Ensures DeadLetters s.toTables := by
  rcases updateRecipients_cases s id recipients with hidle | ⟨e, he, -, hplan⟩
  · exact hidle.ensures _ _
  · rw [hplan]
    intro recordID
    exact h.put hid (h.keyed id e he) fun hfailed => hid ⟨e, he, hfailed⟩

theorem transition_spares {fromStatus toStatus : String}
    (hfrom : fromStatus ≠ "failed") (hto : toStatus ≠ "failed") :
    (transition env s id fromStatus toStatus).Ensures DeadLetters s.toTables := by
  rcases transition_cases env s id fromStatus toStatus with hidle | ⟨e, he, hs, -, hplan⟩
  · exact hidle.ensures _ _
  · rw [hplan]
    intro recordID
    have hold : ¬ FailedAt s.toTables id := not_failedAt_of_status he (hs ▸ hfrom)
    show DeadLetters (if toStatus = "deleted" then _ else _)
    split_ifs
    · exact h.drop hold
    · apply h.put hold
      · exact (withTransition_messageID toStatus e).trans (h.keyed id e he)
      · intro hfailed
        exact hto ((withTransition_status toStatus e).symm.trans hfailed)

theorem retryFromDLQ_spares (id : String) :
    (retryFromDLQ s id).Ensures DeadLetters s.toTables := by
  rcases retryFromDLQ_cases s id with hidle | ⟨e, he, -, hplan⟩
  · exact hidle.ensures _ _
  · rw [hplan]
    intro recordID
    apply h.update (x := some _) (y := none) rfl rfl
    · intro e' he'
      cases he'
      exact h.keyed id e he
    · intro e'
      constructor
      · intro he'
        cases he'
      · rintro ⟨he', hfailed⟩
        cases he'
        simp at hfailed

theorem releaseHeld_spares (id actor : String) :
    (releaseHeld X env s id actor).Ensures DeadLetters s.toTables := by
  rcases releaseHeld_cases X env s id actor with hidle | ⟨e, metadata, he, hheld, hplan⟩
  · exact hidle.ensures _ _
  · rw [hplan]
    intro recordID
    exact h.put (not_failedAt_of_status he (by simp [hheld])) (h.keyed id e he) (by simp)

end

variable {now : Time}

section

variable (h : DeadLetters s.toTables)

include h

theorem finishScheduled_spares {receiptID user : String}
    {cancel : Bool} (hid : ¬ FailedAt s.toTables receiptID) :
    (finishScheduled X s receiptID user cancel now).Ensures DeadLetters s.toTables := by
  rcases finishScheduled_cases X s receiptID user cancel now with
    hidle | ⟨receipt, entry, metadata, hreceipt, hentry, hscheduled, -, hplan⟩
  · exact hidle.ensures _ _
  · rw [hplan]
    have hkey := h.keyed receiptID receipt hreceipt
    have hnew : receipt.status ≠ "failed" := fun hfailed => hid ⟨receipt, hreceipt, hfailed⟩
    have hput : DeadLetters (s.toTables.put receipt.messageID
        { receipt with metadata := metadata }) :=
      h.put (e := { receipt with metadata := metadata }) (hkey ▸ hid) rfl hnew
    -- the queue entry is scheduled, before the receipt is put as well as after
    have hold : ¬ FailedAt (s.toTables.put receipt.messageID
        { receipt with metadata := metadata }) entry.messageID := by
      rintro ⟨e', he', hfailed⟩
      by_cases hk : entry.messageID = receipt.messageID
      · rw [hk, Tables.put_index, update_self] at he'
        cases he'
        exact hnew hfailed
      · rw [Tables.put_index, update_of_ne hk, h.keyed _ entry hentry, hentry] at he'
        cases he'
        rw [hscheduled] at hfailed
        exact absurd hfailed (by decide)
    show DeadLetters (if cancel then _ else _)
    cases cancel with
    | true => exact hput.drop hold
    | false =>
      have hstatus : scheduledStatus false entry ≠ "failed" := by
        unfold scheduledStatus
        split_ifs <;> decide
      exact hput.put (e := { entry with status := scheduledStatus false entry }) hold rfl hstatus

theorem expireWorkflowRecords_spares {receipts sieve : Duration}
    (hexp : ∀ id e, s.index id = some e → e.status = "failed" →
      expirable X s.index now receipts sieve e = false) :
    (expireWorkflowRecords X env s now receipts sieve).Ensures DeadLetters s.toTables := by
  rcases expireWorkflowRecords_cases X env s now receipts sieve with hidle | ⟨-, r, hplan⟩
  · exact hidle.ensures _ _
  · rw [hplan]
    show DeadLetters (foldl _ _ _)
    rw [← foldl_map]
    apply h.foldl_drop
    rintro id hid ⟨e, he, hfailed⟩
    simp only [mem_map] at hid
    obtain ⟨_, ⟨e₀, he₀, rfl⟩, rfl⟩ := hid
    obtain ⟨id₀, hid₀, hexp₀⟩ := mem_eligible he₀
    have hkey : (tombstone e₀).messageID = id₀ := h.keyed id₀ e₀ hid₀
    rw [hkey, hid₀] at he
    have heq : e₀ = e := Option.some.inj he
    rw [hexp id₀ e₀ hid₀ (heq ▸ hfailed)] at hexp₀
    cases hexp₀

theorem storeNotification_spares {source key : String}
    {child : JournalEntry} (hsource : ¬ FailedAt s.toTables source)
    (hchild : child.status ≠ "failed") :
    (storeNotification env s source key child).Ensures DeadLetters s.toTables := by
  rcases storeNotification_cases env s source key child with
    hidle | ⟨parent, metadata, hparent, hnone, -, hplan⟩
  · exact hidle.ensures _ _
  · rw [hplan]
    have hput : DeadLetters (s.toTables.put source { parent with metadata := metadata }) :=
      h.put hsource (h.keyed source parent hparent)
        fun hfailed => hsource ⟨parent, hparent, hfailed⟩
    have hkey : child.messageID ≠ source := by
      rintro rfl
      rw [hnone] at hparent
      cases hparent
    show DeadLetters (if child.status ≠ "delivered" then _ else _)
    split_ifs
    · refine hput.put (not_failedAt_of_none ?_) rfl hchild
      rw [Tables.put_index, update_of_ne hkey]
      exact hnone
    · exact hput

theorem releaseCompliance_spares (id actor reason : String)
    (child : Option JournalEntry) :
    (releaseCompliance X env s id actor reason child).Ensures DeadLetters s.toTables := by
  rcases releaseCompliance_cases X env s id actor reason child with
    hidle | ⟨parent, c, metadata, -, hparent, hstatus, -, hc, hnone, hplan⟩
  · exact hidle.ensures _ _
  · rw [hplan]
    have hput : DeadLetters (s.toTables.put id
        { parent with status := "compliance_released", metadata := metadata }) :=
      h.put (not_failedAt_of_status hparent (by simp [hstatus])) (h.keyed id parent hparent)
        (by simp)
    have hkey : c.messageID ≠ id := by
      rintro rfl
      rw [hnone] at hparent
      cases hparent
    refine hput.put (not_failedAt_of_none ?_) rfl ?_
    · rw [Tables.put_index, update_of_ne hkey]
      exact hnone
    · rcases hc with hc | hc <;> simp [hc]

/-- A compliance change of an entry that has not failed, to a status other than
failed. -/
theorem changeCompliance_spares {reason : String} {r : Answer}
    {change : JournalEntry → Except String JournalEntry}
    (hchange : ∀ e v, s.index id = some e → change e = .ok v →
      v.messageID = e.messageID ∧ e.status ≠ "failed" ∧ v.status ≠ "failed") :
    (changeCompliance env s id reason r change).Ensures DeadLetters s.toTables := by
  rcases changeCompliance_cases env s id reason r change with
    hidle | ⟨e, v, he, -, hv, hplan⟩
  · exact hidle.ensures _ _
  · rw [hplan]
    intro recordID
    obtain ⟨hid, hold, hnew⟩ := hchange e v he hv
    show DeadLetters (if v.status = "deleted" then _ else _)
    split_ifs
    · exact h.drop (not_failedAt_of_status he hold)
    · exact h.put (not_failedAt_of_status he hold) (hid.trans (h.keyed id e he)) hnew

theorem finishComplianceRelease_spares (id : String) :
    (finishComplianceRelease env s id).Ensures DeadLetters s.toTables := by
  unfold finishComplianceRelease
  -- the text of the reason must not be evaluated
  generalize "delivery transaction persisted" = reason
  apply changeCompliance_spares h
  intro e v _ hv
  obtain ⟨hs, rfl⟩ := finishRelease_eq hv
  exact ⟨rfl, by simp [hs], by simp⟩

/-- **An operation keeps the tables exact**, under its condition. -/
theorem Op.plan_spares {op : Op} (hop : op.SparesDLQ X s.toTables) :
    (op.plan X env s).Ensures DeadLetters s.toTables := by
  cases op with
  | storeWithReceipt entry receipts => exact storeWithReceipt_spares h hop.1 hop.2
  | updateStatus id status errorMsg => exact updateStatus_spares h id status errorMsg
  | updateRecipients id recipients => exact updateRecipients_spares h hop
  | transition id fromStatus toStatus => exact transition_spares h hop.1 hop.2
  | retryFromDLQ id => exact retryFromDLQ_spares h id
  | releaseHeld id actor => exact releaseHeld_spares h id actor
  | finishScheduled receiptID user cancel now => exact finishScheduled_spares h hop
  | expireWorkflowRecords now receipts sieve => exact expireWorkflowRecords_spares h hop
  | storeNotification source key child => exact storeNotification_spares h hop.1 hop.2
  | releaseCompliance id actor reason child =>
    exact releaseCompliance_spares h id actor reason child
  | claimComplianceRelease id reason =>
    apply changeCompliance_spares h
    intro e v _ hv
    obtain ⟨hs, rfl⟩ := claimRelease_eq hv
    exact ⟨rfl, by simp [hs], by simp⟩
  | finishComplianceRelease id => exact finishComplianceRelease_spares h id
  | setComplianceHold id reason hold =>
    apply changeCompliance_spares h
    intro e v he hv
    have hold' : e.status ≠ "failed" := fun hfailed => hop ⟨e, he, hfailed⟩
    obtain ⟨metadata, rfl⟩ := setHold_eq hv
    exact ⟨rfl, hold', hold'⟩
  | deleteCompliance id reason =>
    apply changeCompliance_spares h
    intro e v he hv
    rw [deletePreserved_eq hv]
    exact ⟨rfl, fun hfailed => hop ⟨e, he, hfailed⟩, by simp [tombstone]⟩
  | setLimits l => trivial
  | health => exact (health_idle env s).ensures _ _
  | close => exact (close_idle s).ensures _ _

end

end Operations

/-! ### Runs with restarts -/

/-- What can happen to a store: a call, or a restart on what a crash leaves. -/
inductive Event (α : Type)
  | act (a : Action)
  | restart (name : String) (d : Directory α)

/-- The stores that events lead to from an empty directory, each event allowed
where it happens.  Calls may fail; a shutdown is a crash that loses nothing. -/
inductive Lifetime (F : JournalFormat α) (X : Externals)
    (Allowed : MessageStore α → Event α → Prop) : MessageStore α → Prop
  | start {name s} : newMessageStore F name ⟨[], []⟩ = .ok s → Lifetime F X Allowed s
  | act {s} (a : Action) : Lifetime F X Allowed s → Allowed s (.act a) →
      Lifetime F X Allowed (a.run F X s).2
  | restart {s s' name d} : Lifetime F X Allowed s → s.journal.Crash d →
      Allowed s (.restart name d) → newMessageStore F name d = .ok s' → Lifetime F X Allowed s'

/-- The condition on an event under which the dead letter queue stays exact. -/
def Event.SparesDLQ (F : JournalFormat α) (X : Externals) (s : MessageStore α) : Event α → Prop
  | .act (.call _ op) => op.SparesDLQ X s.toTables
  | .act (.compact _ _) => True
  | .restart name d => ∀ es, (newJournal name d).directory.replay F = .ok es → FailedLast es

section Lifetimes

variable {F : JournalFormat α} {X : Externals} {s s' : MessageStore α}

theorem Action.run_deadLetters {a : Action} (h : DeadLetters s.toTables)
    (ha : (Event.act a).SparesDLQ F X s) : DeadLetters (a.run F X s).2.toTables := by
  cases a with
  | call env op => exact exec_tables F h (Op.plan_spares h ha)
  | compact cio retention =>
    -- only held entries go
    have hdrop : ∀ ids, AllOverdueIn s.toTables cio retention ids →
        DeadLetters (ids.foldl .drop s.toTables) := by
      intro ids hids
      apply h.foldl_drop
      intro id hid
      obtain ⟨e, he, hheld, -⟩ := hids id hid
      exact not_failedAt_of_status he (by simp [hheld])
    have hend := (compact_tables (F := F) cio retention s.toTables s rfl).2
    simp only [Action.run]
    rcases hc : EmailService.compact F cio retention s with ⟨l, err | u, s₁⟩ <;>
      rw [hc] at hend <;> obtain ⟨ids, hids, heq⟩ := hend
    · exact (congrArg DeadLetters heq).mpr (hdrop ids hids)
    · exact (congrArg DeadLetters heq).mpr (hdrop ids hids)

variable {name : String} {d : Directory α}

/-- A store as it is opened. -/
theorem newMessageStore_tables (h : newMessageStore F name d = .ok s) :
    ∃ es, (newJournal name d).directory.replay F = .ok es ∧ s.toTables = recoverAll es := by
  unfold newMessageStore at h
  rcases hr : recover F (newJournal name d).directory with err | t
  · rw [hr] at h
    cases h
  · rw [hr] at h
    cases h
    unfold recover at hr
    rcases hes : (newJournal name d).directory.replay F with err | es
    · rw [hes] at hr
      cases hr
    · rw [hes] at hr
      cases hr
      exact ⟨es, rfl, rfl⟩

theorem newMessageStore_journal (h : newMessageStore F name d = .ok s) :
    s.journal = newJournal name d := by
  unfold newMessageStore at h
  split at h
  · cases h
  · cases h
    rfl

/-- An empty directory has an empty log. -/
theorem replay_newJournal_empty (F : JournalFormat α) (name : String) :
    (newJournal name ⟨[], []⟩).directory.replay F = .ok [] := by
  show replayFiles F [] (glob [(name, [])]) = .ok []
  exact replayFiles_singleton (not_mem_nil) F.decode_nil

theorem Lifetime.deadLetters (h : Lifetime F X (Event.SparesDLQ F X) s) :
    DeadLetters s.toTables := by
  induction h with
  | @start name s hopen =>
    obtain ⟨es, hes, htables⟩ := newMessageStore_tables hopen
    rw [replay_newJournal_empty] at hes
    cases hes
    rw [htables]
    exact .recoverAll fun _ _ _ hlast => nomatch hlast
  | act a _ hallowed ih => exact a.run_deadLetters ih hallowed
  | restart _ _ hallowed hopen _ =>
    obtain ⟨es, hes, htables⟩ := newMessageStore_tables hopen
    rw [htables]
    exact .recoverAll (hallowed es hes)

/-- **The dead letter queue is the failed part of the index** in every store
reached by events that meet their conditions. -/
theorem dlq_exact (h : Lifetime F X (Event.SparesDLQ F X) s) : DLQExact s.toTables :=
  h.deadLetters.exact

end Lifetimes

/-! ### Two lifetimes -/

/-- Acceptance of the message. -/
def accept : Action := .call (calmEnv []) (.storeWithReceipt firstMessage [none])

/-- Its permanent failure. -/
def giveUp : Action := .call (calmEnv ["m1"]) (.updateStatus "m1" "failed" "550 no such user")

/-- An operator puts it back into the queue. -/
def retry : Action := .call (calmEnv ["m1"]) (.retryFromDLQ "m1")

variable (actions : List Action)

/-- The store after a sequence of calls. -/
def storeAfter : MessageStore JournalEntry :=
  actions.foldl (fun s a => (a.run recordFormat bareExternals s).2) openedStore

/-- The directory a shutdown leaves then. -/
def directoryAfter : Directory JournalEntry :=
  (storeAfter actions).journal.directory

/-- The store that opens there. -/
def reopenedStore : MessageStore JournalEntry where
  toTables := recoverAll ((directoryAfter actions).files.flatMap Prod.snd)
  journal := newJournal "journal-2.log" (directoryAfter actions)
  limits := ⟨0, 0, 0⟩
  closed := false
  closeErr := none

theorem openedStore_eq :
    newMessageStore recordFormat "journal-1.log" ⟨[], []⟩ = .ok openedStore := rfl

/-- The records of the acceptance and of the failure. -/
def failureLog : List JournalEntry :=
  [{ firstMessage with id := "record", createdAt := 1, status := "pending" },
    { firstMessage with
      id := "record"
      createdAt := 1
      status := "failed"
      errorMessage := "550 no such user" }]

theorem failedLast_failureLog : FailedLast failureLog := by
  intro id e hid hlast hfailed
  by_cases hm : id = "m1"
  · subst hm
    exact hlast
  · -- both records are of the one message
    have hnone : lastSettling failureLog id = none := by
      have hne : "m1" ≠ id := .symm hm
      simp [lastSettling, failureLog, firstMessage, hne]
    rw [hnone] at hlast
    cases hlast

/-- A message fails for good and the service restarts: it is in both tables. -/
theorem dlq_exact_failed :
    ((reopenedStore [accept, giveUp]).dlq "m1").map JournalEntry.status = some "failed" ∧
      DLQExact (reopenedStore [accept, giveUp]).toTables := by
  have hopen : newMessageStore recordFormat "journal-2.log" (directoryAfter [accept, giveUp]) =
      .ok (reopenedStore [accept, giveUp]) := rfl
  have hlog : (newJournal "journal-2.log" (directoryAfter [accept, giveUp])).directory.replay
      recordFormat = .ok failureLog := rfl
  refine ⟨rfl, dlq_exact (F := recordFormat) (X := bareExternals) ?_⟩
  refine Lifetime.restart (s := storeAfter [accept, giveUp]) ?_ (Journal.crash_directory _) ?_ hopen
  · apply Lifetime.act giveUp
    · apply Lifetime.act accept (.start openedStore_eq)
      exact ⟨by decide, fun receipt hr => by simp at hr⟩
    · trivial
  · intro es hes
    rw [← Except.ok.inj (hlog.symm.trans hes)]
    exact failedLast_failureLog

/-- **A retried message stays in the dead letter queue**: after the failure an
operator retries the message, and the restart brings the failure back. -/
theorem retried_dlq_stale :
    ∃ s, Lifetime recordFormat bareExternals (fun _ _ => True) s ∧
      (s.index "m1").map JournalEntry.status = some "pending" ∧
      (s.dlq "m1").map JournalEntry.status = some "failed" := by
  have hopen : newMessageStore recordFormat "journal-2.log"
      (directoryAfter [accept, giveUp, retry]) = .ok (reopenedStore [accept, giveUp, retry]) := rfl
  refine ⟨reopenedStore [accept, giveUp, retry], ?_, rfl, rfl⟩
  refine Lifetime.restart (s := storeAfter [accept, giveUp, retry]) ?_ (Journal.crash_directory _)
    trivial hopen
  exact .act retry (.act giveUp (.act accept (.start openedStore_eq) trivial) trivial) trivial

end EmailService
