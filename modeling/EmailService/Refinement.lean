/-
EmailService/Refinement.lean

The store operations against recovery: which of them leave on disk exactly what
they publish in the index.

An operation journals entries and then changes the index.  Recovery reads the
entries alone.  The two agree as soon as the index changes by what the entries
say (`Plan.Faithful`): each entry is put under its message ID, or dropped if
its status is terminal, in the order of the journal.  `Op.Admissible` is the
condition on the request and the store under which an operation is faithful
(`Op.plan_faithful`), and `exec_mirrors` carries the recovery invariant over
one faithful operation.
-/
import EmailService.Plans
import EmailService.Recovery

namespace EmailService

open KeyedLog Framing List Function

variable {α : Type}

/-! ### Faithful plans -/

/-- What a journalled entry should do to the live index. -/
def posted (e : JournalEntry) : String × Option JournalEntry :=
  (e.messageID, if Terminal e.status then none else some e)

variable {e : JournalEntry} {m : String → Option JournalEntry} {es : List JournalEntry}
  {plan : Plan}

theorem posted_of_terminal (h : Terminal e.status) : posted e = (e.messageID, none) := by
  rw [posted, if_pos h]

theorem posted_of_live (h : ¬ Terminal e.status) : posted e = (e.messageID, some e) := by
  rw [posted, if_neg h]

/-- Recovery sees the requeued image of what is posted. -/
theorem change_eq_posted (e : JournalEntry) :
    change e = ((posted e).1, (posted e).2.map requeue) := by
  by_cases h : Terminal e.status
  · rw [change_of_terminal h, posted_of_terminal h]; rfl
  · rw [change_of_live h, posted_of_live h]; rfl

theorem requeued_replayFrom_posted (m : String → Option JournalEntry)
    (es : List JournalEntry) :
    requeued (replayFrom m (es.map posted)) = replayFrom (requeued m) (es.map change) := by
  rw [requeued, mapValues_replayFrom, map_map]
  congr 1
  exact map_congr_left fun e _ => (change_eq_posted e).symm

/-- Posting well-formed entries keeps the index well formed. -/
theorem Live.replayFrom_posted (h : Live m)
    (hes : ∀ e ∈ es, e.messageID ≠ "" ∧ e.status ≠ "transaction") :
    Live (replayFrom m (es.map posted)) := by
  induction es generalizing m with
  | nil => exact h
  | cons e es ih =>
    refine ih ?_ fun e' he' => hes e' (mem_cons_of_mem _ he')
    obtain ⟨hid, hsingle⟩ := hes e mem_cons_self
    intro id' e' he'
    change update m e.messageID (posted e).2 id' = some e' at he'
    by_cases hk : id' = e.messageID
    · subst hk
      rw [update_self] at he'
      by_cases hterm : Terminal e.status
      · rw [posted_of_terminal hterm] at he'; cases he'
      · rw [posted_of_live hterm] at he'
        cases he'
        exact ⟨rfl, hid, hterm, hsingle⟩
    · rw [update_of_ne hk] at he'
      exact h id' e' he'

/-- The plan changes the index by what it journals, and journals only what
replay accepts. -/
def Plan.Faithful (t : Tables) : Plan → Prop
  | .write e _ publish _ => e.messageID ≠ "" ∧ e.status ≠ "transaction" ∧
      ∀ recordID, (publish { e with id := recordID } t).index =
        replayFrom t.index [posted { e with id := recordID }]
  | .batch es _ publish _ => es ≠ [] ∧ (∀ e ∈ es, ValidChild e) ∧
      (publish t).index = replayFrom t.index (es.map posted)
  | _ => True

theorem Plan.Idle.faithful (h : plan.Idle) (t : Tables) : plan.Faithful t := by
  cases plan <;> first | exact h.elim | trivial

/-! ### One faithful operation -/

/-- The journal of `s` rebuilds the index of `s` without the keys `gone`. -/
structure Mirrors (F : JournalFormat α) (gone : List String) (s : MessageStore α) : Prop where
  rebuilds : Rebuilds F s.journal (dropAll (requeued s.index) gone)
  live : Live s.index

variable {F : JournalFormat α} {s s' : MessageStore α} {gone : List String} {env : Env}

/-- Appending a record and posting its entries keeps journal and index in
step. -/
theorem Mirrors.append (h : Mirrors F gone s) {r : JournalEntry} {frame : List α}
    (hframe : F.encode r = .ok frame) (hr : expandRecord r = .ok es)
    (hes : ∀ e ∈ es, e.messageID ≠ "" ∧ e.status ≠ "transaction")
    (hj : s'.journal = s.journal.setData ⟨s.journal.file.data.synced ++ frame, [], []⟩)
    (hindex : s'.index = replayFrom s.index (es.map posted)) :
    ∃ gone' ⊆ gone, (∀ id ∈ gone', s'.index id = s.index id) ∧ Mirrors F gone' s' := by
  have happ := h.rebuilds.append hframe hr fun e he => (hes e he).1
  rw [replayFrom_dropAll, ← requeued_replayFrom_posted, ← hindex, ← hj] at happ
  refine ⟨_, filter_subset_self _, ?_, happ, hindex ▸ h.live.replayFrom_posted hes⟩
  -- a key that is written again is no longer missing on disk
  intro id hid
  rw [hindex]
  apply replayFrom_apply_of_notMem
  intro c hc heq
  obtain ⟨e, he, rfl⟩ := mem_map.mp hc
  have hnot := of_decide_eq_true (mem_filter.mp hid).2
  exact hnot (mem_map.mpr ⟨change e, mem_map_of_mem he, heq⟩)

/-- Operations that leave index and journal alone keep them in step. -/
theorem Mirrors.of_eq (h : Mirrors F gone s) (hj : s'.journal = s.journal)
    (hindex : s'.index = s.index) : Mirrors F gone s' :=
  ⟨hj ▸ hindex ▸ h.rebuilds, hindex ▸ h.live⟩

theorem Rebuilds.sync_eq {j : Journal α} (h : Rebuilds F j m) : j.setData j.file.data.sync = j := by
  rw [h.healthy.clean.sync_eq]
  rfl

/-- **One successful faithful operation** keeps the journal and the index in
step. -/
theorem exec_mirrors {r : Answer} (h : Mirrors F gone s) (hplan : plan.Faithful s.toTables)
    (hexec : s.exec F env plan = (.ok r, s')) :
    ∃ gone' ⊆ gone, (∀ id ∈ gone', s'.index id = s.index id) ∧ Mirrors F gone' s' := by
  have hhealthy := h.rebuilds.healthy
  cases plan with
  | reject err => cases hexec
  | answer r' =>
    cases hexec
    exact ⟨gone, .refl _, fun _ _ => rfl, h⟩
  | write e context publish r' =>
    obtain ⟨hid, hsingle, hpub⟩ := hplan
    rcases hw : s.journal.write F env.io env.recordUUID e with ⟨rw', j⟩
    simp only [MessageStore.exec, hw] at hexec
    rcases writeLocked_spec hhealthy hw with
      ⟨rfl, frame, hframe, rfl⟩ | ⟨⟨err, rfl⟩, -⟩ | ⟨⟨err, rfl⟩, -⟩
    · cases hexec
      rw [fillID_eq] at hframe ⊢
      exact h.append hframe (expandRecord_single hsingle)
        (fun e' he' => by rw [mem_singleton.mp he']; exact ⟨hid, hsingle⟩) rfl (hpub _)
    · cases hexec
    · cases hexec
  | batch es context publish r' =>
    obtain ⟨hne, hvalid, hpub⟩ := hplan
    rcases hw : s.journal.writeBatch F env.io env.recordUUID es with ⟨rw', j⟩
    simp only [MessageStore.exec, hw] at hexec
    rcases writeLocked_spec hhealthy hw with
      ⟨rfl, frame, hframe, rfl⟩ | ⟨⟨err, rfl⟩, -⟩ | ⟨⟨err, rfl⟩, -⟩
    · cases hexec
      rw [fillID_eq] at hframe
      exact h.append hframe (expandRecord_batch hne hvalid _)
        (fun e he => ⟨(hvalid e he).messageID_ne, (hvalid e he).status_ne⟩) rfl hpub
    · cases hexec
    · cases hexec
  | sync =>
    rcases hs : env.io.sync with - | err
    · simp only [MessageStore.exec, hs] at hexec
      cases hexec
      exact ⟨gone, .refl _, fun _ _ => rfl, h.of_eq h.rebuilds.sync_eq rfl⟩
    · simp only [MessageStore.exec, hs] at hexec
      cases hexec
  | close =>
    rcases hs : env.io.sync with - | err
    · rcases hc : env.fileClose with - | err
      · simp only [MessageStore.exec, hs, hc] at hexec
        cases hexec
        exact ⟨gone, .refl _, fun _ _ => rfl, h.of_eq h.rebuilds.sync_eq rfl⟩
      · simp only [MessageStore.exec, hs, hc] at hexec
        cases hexec
    · simp only [MessageStore.exec, hs] at hexec
      cases hexec
  | limit l =>
    cases hexec
    exact ⟨gone, .refl _, fun _ _ => rfl, h.of_eq rfl rfl⟩

/-! ### Admissible requests -/

/-- A status under which recovery keeps an entry. -/
def Keeps (status : String) : Prop := ¬ Terminal status ∧ status ≠ "transaction"

/-- The condition, on the request and the store it meets, under which an
operation publishes what it journals. -/
def Op.Admissible (X : Externals) (env : Env) (s : MessageStore α) : Op → Prop
  | .storeWithReceipt entry receipts =>
    Keeps (withDefaults env entry).status ∧
      ∀ receipt, some receipt ∈ receipts →
        Keeps receipt.status ∧ receipt.transaction = [] ∧ entry.transaction = []
  | .updateStatus _ status _ => status ≠ "transaction"
  | .transition _ _ toStatus => toStatus ≠ "delivered" ∧ toStatus ≠ "transaction"
  | .finishScheduled receiptID _ _ _ =>
    ∀ receipt, s.index receiptID = some receipt →
      receipt.meta "queue_id" ≠ receiptID ∧ receipt.transaction = [] ∧
        ∀ entry, s.index (receipt.meta "queue_id") = some entry → entry.transaction = []
  | .expireWorkflowRecords now receipts sieve =>
    ∀ id e, s.index id = some e → expirable X s.index now receipts sieve e = true →
      e.transaction = []
  | .storeNotification source _ child =>
    child.messageID ≠ "" ∧ child.status ≠ "deleted" ∧ child.status ≠ "transaction" ∧
      child.transaction = [] ∧ ∀ parent, s.index source = some parent → parent.transaction = []
  | .releaseCompliance id _ _ child =>
    (∀ c, child = some c → c.transaction = []) ∧
      ∀ parent, s.index id = some parent → parent.transaction = []
  | _ => True

/-! ### Each operation is faithful -/

section Faithful

variable {X : Externals} {m : String → Option JournalEntry} {e v : JournalEntry} {t : Tables}
  {k context id actor reason : String} {r : Answer} {publish : JournalEntry → Tables → Tables}
  {es : List JournalEntry} {now : Time}

theorem replayFrom_posted_live (h : ¬ Terminal e.status) :
    replayFrom m [posted e] = update m e.messageID (some e) := by
  rw [posted_of_live h]; rfl

theorem replayFrom_posted_terminal (h : Terminal e.status) :
    replayFrom m [posted e] = update m e.messageID none := by
  rw [posted_of_terminal h]; rfl

/-- Putting back a changed entry of the index, under its key. -/
theorem faithful_put (hid : v.messageID = k) (hne : k ≠ "") (hkeep : Keeps v.status)
    (hpub : ∀ recordID, (publish { v with id := recordID } t).index =
      update t.index k (some { v with id := recordID })) :
    (Plan.write v context publish r).Faithful t := by
  subst hid
  refine ⟨hne, hkeep.2, fun recordID => ?_⟩
  rw [hpub, replayFrom_posted_live (e := { v with id := recordID }) hkeep.1]

/-- Dropping an entry of the index after journalling its tombstone. -/
theorem faithful_drop (hid : v.messageID = k) (hne : k ≠ "") (hterm : Terminal v.status)
    (hpub : ∀ recordID, (publish { v with id := recordID } t).index =
      update t.index k none) : (Plan.write v context publish r).Faithful t := by
  subst hid
  refine ⟨hne, ?_, fun recordID => ?_⟩
  · rcases hterm with h | h <;> rw [h] <;> decide
  · rw [hpub, replayFrom_posted_terminal (e := { v with id := recordID }) hterm]

theorem publishAll_index (h : ∀ e ∈ es, ¬ Terminal e.status) (t : Tables) :
    (publishAll es t).index = replayFrom t.index (es.map posted) := by
  induction es generalizing t with
  | nil => rfl
  | cons e es ih =>
    have hstep : publishAll (e :: es) t = publishAll es (t.put e.messageID e) := rfl
    rw [hstep, ih fun e' he' => h e' (mem_cons_of_mem _ he'), map_cons,
      replayFrom_cons, posted_of_live (h e mem_cons_self)]
    rfl

theorem foldl_drop_index (h : ∀ e ∈ es, Terminal e.status) (t : Tables) :
    (es.foldl (fun t e => t.drop e.messageID) t).index =
      replayFrom t.index (es.map posted) := by
  induction es generalizing t with
  | nil => rfl
  | cons e es ih =>
    rw [foldl_cons, ih fun e' he' => h e' (mem_cons_of_mem _ he'), map_cons,
      replayFrom_cons, posted_of_terminal (h e mem_cons_self)]
    rfl

/-- A batch of two entries, published in either way that leaves both. -/
theorem faithful_pair {a b : JournalEntry} {publish : Tables → Tables} (ha : ValidChild a)
    (hb : ValidChild b)
    (hpub : (publish t).index = update (update t.index a.messageID (posted a).2)
      b.messageID (posted b).2) : (Plan.batch [a, b] context publish r).Faithful t := by
  refine ⟨by simp, ?_, hpub⟩
  intro e he
  rcases mem_cons.mp he with rfl | he
  · exact ha
  · rw [mem_singleton.mp he]
    exact hb

theorem storeWithReceipt_faithful {entry : JournalEntry}
    {receipts : List (Option JournalEntry)}
    (h : (Op.storeWithReceipt entry receipts).Admissible X env s) :
    (storeWithReceipt env s entry receipts).Faithful s.toTables := by
  obtain ⟨hkeep, hreceipts⟩ := h
  have hid := withDefaults_messageID_ne env entry
  rcases storeWithReceipt_cases env s entry receipts with
    hidle | ⟨-, -, batch, hbatch, ⟨-, hplan⟩ | ⟨hne, hplan⟩⟩
  · exact hidle.faithful _
  · rw [hplan]
    exact faithful_put rfl hid hkeep fun _ => rfl
  · rw [hplan]
    have hb := collectReceipts_ok hbatch
    have hvalid : ∀ e ∈ withDefaults env entry :: batch, ValidChild e ∧ ¬ Terminal e.status := by
      intro e he
      rcases mem_cons.mp he with rfl | he
      · -- some receipt is there, so the entry itself carries no transaction
        obtain ⟨r, rest, rfl⟩ := exists_cons_of_ne_nil hne
        have hr := hreceipts r (hb r mem_cons_self).1
        exact ⟨⟨hid, hr.2.2, hkeep.2⟩, hkeep.1⟩
      · obtain ⟨hmem, hne', -⟩ := hb e he
        have hr := hreceipts e hmem
        exact ⟨⟨hne', hr.2.1, hr.1.2⟩, hr.1.1⟩
    exact ⟨by simp, fun e he => (hvalid e he).1,
      publishAll_index (fun e he => (hvalid e he).2) _⟩

theorem publishStatus_index (id status : String) (e : JournalEntry) (t : Tables) :
    (publishStatus id status e t).index =
      update t.index id (if Terminal status then none else some e) := by
  unfold publishStatus Terminal
  by_cases hfailed : status = "failed"
  · simp [hfailed]
  · by_cases hterm : status = "delivered" ∨ status = "deleted" <;> simp [hfailed, hterm]

section

variable (hlive : Live s.index)

include hlive

theorem updateStatus_faithful {status errorMsg : String}
    (h : status ≠ "transaction") : (updateStatus env s id status errorMsg).Faithful s.toTables := by
  rcases updateStatus_cases env s id status errorMsg with hidle | ⟨e, he, -, hplan⟩
  · exact hidle.faithful _
  · rw [hplan]
    have hst := hlive id e he
    have hid : (withStatus env status errorMsg e).messageID = id := by simp [hst.messageID]
    by_cases hterm : Terminal status
    · refine faithful_drop hid hst.id_ne (by simpa using hterm) fun recordID => ?_
      rw [publishStatus_index, if_pos hterm]
    · refine faithful_put hid hst.id_ne ⟨by simpa using hterm, by simpa using h⟩ fun recordID => ?_
      rw [publishStatus_index, if_neg hterm]

theorem updateRecipients_faithful {recipients : List String} :
    (updateRecipients s id recipients).Faithful s.toTables := by
  rcases updateRecipients_cases s id recipients with hidle | ⟨e, he, -, hplan⟩
  · exact hidle.faithful _
  · rw [hplan]
    have hst := hlive id e he
    exact faithful_put hst.messageID hst.id_ne ⟨hst.live, hst.single⟩ fun _ => rfl

theorem transition_faithful {fromStatus toStatus : String}
    (h : toStatus ≠ "delivered" ∧ toStatus ≠ "transaction") :
    (transition env s id fromStatus toStatus).Faithful s.toTables := by
  rcases transition_cases env s id fromStatus toStatus with hidle | ⟨e, he, -, -, hplan⟩
  · exact hidle.faithful _
  · rw [hplan]
    have hst := hlive id e he
    have hid : (withTransition env toStatus e).messageID = id := by simp [hst.messageID]
    by_cases hdel : toStatus = "deleted"
    · refine faithful_drop hid hst.id_ne (by simpa using .inr hdel) fun recordID => ?_
      rw [if_pos hdel, Tables.drop_index]
    · have hkeep : Keeps toStatus := ⟨fun ht => ht.elim h.1 hdel, h.2⟩
      refine faithful_put hid hst.id_ne (by simpa using hkeep) fun recordID => ?_
      rw [if_neg hdel, Tables.put_index]

theorem retryFromDLQ_faithful : (retryFromDLQ s id).Faithful s.toTables := by
  rcases retryFromDLQ_cases s id with hidle | ⟨e, he, -, hplan⟩
  · exact hidle.faithful _
  · rw [hplan]
    have hst := hlive id e he
    exact faithful_put hst.messageID hst.id_ne ⟨by simp [Terminal], by simp⟩ fun _ => rfl

theorem releaseHeld_faithful :
    (releaseHeld X env s id actor).Faithful s.toTables := by
  rcases releaseHeld_cases X env s id actor with hidle | ⟨e, metadata, he, -, hplan⟩
  · exact hidle.faithful _
  · rw [hplan]
    have hst := hlive id e he
    exact faithful_put hst.messageID hst.id_ne ⟨by simp [Terminal], by simp⟩ fun _ => rfl

/-- A compliance change that keeps the message ID and ends in a status the
index keeps, or in a deletion, is faithful. -/
theorem changeCompliance_faithful {change : JournalEntry → Except String JournalEntry}
    (h : ∀ e v, Stored id e → change e = .ok v → v.messageID = e.messageID ∧ (Keeps v.status ∨
      v.status = "deleted")) : (changeCompliance env s id reason r change).Faithful s.toTables := by
  rcases changeCompliance_cases env s id reason r change with hidle | ⟨e, v, he, -, hv, hplan⟩
  · exact hidle.faithful _
  · rw [hplan]
    have hst := hlive id e he
    obtain ⟨hid, hkeep | hdel⟩ := h e v hst hv
    · have hdel : v.status ≠ "deleted" := fun hd => hkeep.1 (.inr hd)
      exact faithful_put (hid.trans hst.messageID) hst.id_ne hkeep fun _ => by
        rw [if_neg hdel, Tables.put_index]
    · exact faithful_drop (hid.trans hst.messageID) hst.id_ne (.inr hdel) fun _ => by
        rw [if_pos hdel, Tables.drop_index]

end

theorem claimRelease_ok (_ : Stored id e) (h : claimRelease e = .ok v) :
    v.messageID = e.messageID ∧ (Keeps v.status ∨ v.status = "deleted") := by
  rw [(claimRelease_eq h).2]
  exact ⟨rfl, .inl ⟨by simp [Terminal], by simp⟩⟩

theorem finishRelease_ok (_ : Stored id e) (h : finishRelease e = .ok v) :
    v.messageID = e.messageID ∧ (Keeps v.status ∨ v.status = "deleted") := by
  rw [(finishRelease_eq h).2]
  exact ⟨rfl, .inl ⟨by simp [Terminal], by simp⟩⟩

/-- The reason is a fixed text here, which must not be evaluated. -/
theorem finishComplianceRelease_faithful (hlive : Live s.index) :
    (finishComplianceRelease env s id).Faithful s.toTables := by
  unfold finishComplianceRelease
  generalize "delivery transaction persisted" = reason
  exact changeCompliance_faithful hlive fun _ _ => finishRelease_ok

theorem setHold_ok {hold : Bool} (hst : Stored id e) (h : setHold hold e = .ok v) :
    v.messageID = e.messageID ∧ (Keeps v.status ∨ v.status = "deleted") := by
  obtain ⟨metadata, rfl⟩ := setHold_eq h
  exact ⟨rfl, .inl ⟨hst.live, hst.single⟩⟩

theorem deletePreserved_ok (_ : Stored id e) (h : deletePreserved X now e = .ok v) :
    v.messageID = e.messageID ∧ (Keeps v.status ∨ v.status = "deleted") := by
  rw [deletePreserved_eq h]
  exact ⟨rfl, .inr rfl⟩

theorem scheduledStatus_cancel (e : JournalEntry) : scheduledStatus true e = "deleted" := rfl

theorem keeps_scheduledStatus (e : JournalEntry) : Keeps (scheduledStatus false e) := by
  unfold Keeps Terminal scheduledStatus
  by_cases h : e.meta "after_schedule" = "held" <;> simp [h]

section

variable (hlive : Live s.index)

include hlive

/-- The batch of a dispatch or a cancellation is journalled queue entry first
and published receipt first; the two orders agree on distinct messages. -/
theorem finishScheduled_faithful {receiptID user : String} {cancel : Bool}
    (h : (Op.finishScheduled receiptID user cancel now).Admissible X env s) :
    (finishScheduled X s receiptID user cancel now).Faithful s.toTables := by
  rcases finishScheduled_cases X s receiptID user cancel now with
    hidle | ⟨receipt, entry, metadata, hreceipt, hentry, -, -, hplan⟩
  · exact hidle.faithful _
  · rw [hplan]
    obtain ⟨hne, hrtx, hqtx⟩ := h receipt hreceipt
    have hr := hlive receiptID receipt hreceipt
    have hq := hlive _ entry hentry
    have hkeys : receipt.messageID ≠ entry.messageID := by
      rw [hq.messageID, hr.messageID]
      exact hne.symm
    have hsingle : scheduledStatus cancel entry ≠ "transaction" := by
      cases cancel with
      | true => rw [scheduledStatus_cancel]; decide
      | false => exact (keeps_scheduledStatus entry).2
    refine faithful_pair ⟨hq.messageID_ne, hqtx entry hentry, hsingle⟩
      ⟨hr.messageID_ne, hrtx, hr.single⟩ ?_
    rw [posted_of_live (e := { receipt with metadata := metadata }) hr.live]
    cases cancel with
    | true =>
      rw [posted_of_terminal (.inr rfl)]
      exact update_comm hkeys _ _ _
    | false =>
      rw [posted_of_live (keeps_scheduledStatus entry).1]
      exact update_comm hkeys _ _ _

theorem expireWorkflowRecords_faithful {receipts sieve : Duration}
    (h : (Op.expireWorkflowRecords now receipts sieve).Admissible X env s) :
    (expireWorkflowRecords X env s now receipts sieve).Faithful s.toTables := by
  rcases expireWorkflowRecords_cases X env s now receipts sieve with hidle | ⟨hne, r, hplan⟩
  · exact hidle.faithful _
  · rw [hplan]
    refine ⟨by simpa using hne, ?_, foldl_drop_index ?_ _⟩
    · intro e he
      obtain ⟨e₀, he₀, rfl⟩ := mem_map.mp he
      obtain ⟨id, hid, hexp⟩ := mem_eligible he₀
      exact ⟨(hlive id e₀ hid).messageID_ne, h id e₀ hid hexp, by simp [tombstone]⟩
    · intro e he
      obtain ⟨e₀, -, rfl⟩ := mem_map.mp he
      exact .inr rfl

theorem storeNotification_faithful {source key : String} {child : JournalEntry}
    (h : (Op.storeNotification source key child).Admissible X env s) :
    (storeNotification env s source key child).Faithful s.toTables := by
  obtain ⟨hid, hdel, htx, hctx, hptx⟩ := h
  rcases storeNotification_cases env s source key child with
    hidle | ⟨parent, metadata, hparent, hnone, -, hplan⟩
  · exact hidle.faithful _
  · rw [hplan]
    have hst := hlive source parent hparent
    refine faithful_pair ⟨hst.messageID_ne, hptx parent hparent, hst.single⟩ ⟨hid, hctx, htx⟩ ?_
    rw [posted_of_live (e := { parent with metadata := metadata }) hst.live]
    dsimp only
    rw [hst.messageID]
    by_cases hdone : child.status = "delivered"
    · -- a delivered child is not indexed, and was not there before
      have hkey : child.messageID ≠ source := by
        rintro rfl
        rw [hnone] at hparent
        cases hparent
      rw [posted_of_terminal (.inl hdone), if_neg (by simp [hdone]), update_comm hkey.symm,
        ← hnone, update_eq_self, Tables.put_index]
    · have hkeep : ¬ Terminal child.status := fun ht => ht.elim hdone hdel
      rw [posted_of_live hkeep, if_pos hdone]
      rfl

theorem releaseCompliance_faithful {child : Option JournalEntry}
    (h : (Op.releaseCompliance id actor reason child).Admissible X env s) :
    (releaseCompliance X env s id actor reason child).Faithful s.toTables := by
  obtain ⟨hctx, hptx⟩ := h
  rcases releaseCompliance_cases X env s id actor reason child with
    hidle | ⟨parent, c, metadata, rfl, hparent, -, hcid, hstatus, -, hplan⟩
  · exact hidle.faithful _
  · rw [hplan]
    have hst := hlive id parent hparent
    have hkeep : Keeps c.status := by
      rcases hstatus with hs | hs <;> rw [hs] <;> exact ⟨by simp [Terminal], by simp⟩
    have hcne : c.messageID ≠ "" := by
      rw [hcid]
      intro h0
      have hlen := congrArg String.length h0
      simp at hlen
    refine faithful_pair ⟨hst.messageID_ne, hptx parent hparent, by simp⟩
      ⟨hcne, hctx c rfl, hkeep.2⟩ ?_
    rw [posted_of_live (by simp [Terminal]),
      posted_of_live (e := { c with createdAt := env.later }) hkeep.1]
    dsimp only [Tables.put_index]
    rw [hst.messageID]

/-- **Every admissible operation is faithful.** -/
theorem Op.plan_faithful {op : Op} (h : op.Admissible X env s) :
    (op.plan X env s).Faithful s.toTables := by
  cases op with
  | storeWithReceipt entry receipts => exact storeWithReceipt_faithful h
  | updateStatus id status errorMsg => exact updateStatus_faithful hlive h
  | updateRecipients id recipients => exact updateRecipients_faithful hlive
  | transition id fromStatus toStatus => exact transition_faithful hlive h
  | retryFromDLQ id => exact retryFromDLQ_faithful hlive
  | releaseHeld id actor => exact releaseHeld_faithful hlive
  | finishScheduled receiptID user cancel now => exact finishScheduled_faithful hlive h
  | expireWorkflowRecords now receipts sieve => exact expireWorkflowRecords_faithful hlive h
  | storeNotification source key child => exact storeNotification_faithful hlive h
  | releaseCompliance id actor reason child => exact releaseCompliance_faithful hlive h
  | claimComplianceRelease id reason =>
    exact changeCompliance_faithful hlive fun _ _ => claimRelease_ok
  | finishComplianceRelease id =>
    exact finishComplianceRelease_faithful hlive
  | setComplianceHold id reason hold =>
    exact changeCompliance_faithful hlive fun _ _ => setHold_ok
  | deleteCompliance id reason =>
    exact changeCompliance_faithful hlive fun _ _ => deletePreserved_ok
  | setLimits l => trivial
  | health => exact (health_idle env s).faithful _
  | close => exact (close_idle s).faithful _

end

end Faithful

end EmailService
