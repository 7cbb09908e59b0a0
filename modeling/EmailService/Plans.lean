/-
EmailService/Plans.lean

What each store operation can plan.

A request that passes its checks ends in one journal write; any other request
leaves the tables alone.  The lemmas `*_cases` say so once for each operation:
the plan is idle, or it is the write named there, and the checks of the source
have held.  Invariants of the store are proved from these lemmas, without
unfolding the operations again.
-/
import EmailService.Store

namespace EmailService

open List

variable {α : Type} {X : Externals} {env : Env} {s s' : MessageStore α}

/-! ### Idle plans -/

/-- The plan writes no record, and so publishes nothing. -/
def Plan.Idle : Plan → Prop
  | .write .. => False
  | .batch .. => False
  | _ => True

/-- `Ensures P t plan`: what the plan publishes on the tables `t` satisfies
`P`, whichever ID the journal gives its record. -/
def Plan.Ensures (P : Tables → Prop) (t : Tables) : Plan → Prop
  | .write e _ publish _ => ∀ recordID, P (publish { e with id := recordID } t)
  | .batch _ _ publish _ => P (publish t)
  | _ => True

variable {plan : Plan} {e : JournalEntry}

theorem Plan.Idle.ensures (h : plan.Idle) (P : Tables → Prop) (t : Tables) : plan.Ensures P t := by
  cases plan <;> first | exact h.elim | trivial

/-- A check that a request fails before anything is written. -/
theorem Plan.guard {c R : Prop} [Decidable c] {p q : Plan} (hplan : (if c then p else q) = plan)
    (hp : p.Idle) (h : ¬ c → q = plan → plan.Idle ∨ R) : plan.Idle ∨ R := by
  split at hplan
  · exact .inl (hplan ▸ hp)
  · next hc => exact h hc hplan

theorem fillID_eq (uuid : String) (e : JournalEntry) :
    fillID uuid e = { e with id := if e.id = "" then uuid else e.id } := by
  cases e
  unfold fillID
  split <;> rfl

/-- The entry the journal hands back is the one given, with its ID filled. -/
theorem write_ok_eq {F : JournalFormat α} {io : WriteIO} {uuid : String} {j j' : Journal α}
    {e' : JournalEntry} (h : j.write F io uuid e = (.ok e', j')) : e' = fillID uuid e := by
  simp only [Journal.write, writeLocked] at h
  split at h
  · cases h
  · split at h
    · cases h
    · split at h
      · cases h
        rfl
      · split at h <;> cases h

/-- **The tables after a call** are those before it, or what its plan has
published. -/
theorem exec_tables (F : JournalFormat α) {P : Tables → Prop} (hs : P s.toTables)
    (hplan : plan.Ensures P s.toTables) : P (s.exec F env plan).2.toTables := by
  cases plan with
  | reject err => exact hs
  | answer r => exact hs
  | write e context publish r =>
    simp only [MessageStore.exec]
    rcases hw : s.journal.write F env.io env.recordUUID e with ⟨err | e', j⟩
    · exact hs
    · have he' : e' = fillID env.recordUUID e := write_ok_eq hw
      subst he'
      rw [fillID_eq]
      exact hplan _
  | batch es context publish r =>
    simp only [MessageStore.exec]
    rcases s.journal.writeBatch F env.io env.recordUUID es with ⟨err | e', j⟩
    · exact hs
    · exact hplan
  | sync =>
    rcases hs' : env.io.sync with - | err <;> simp only [MessageStore.exec, hs'] <;> exact hs
  | close =>
    rcases hs' : env.io.sync with - | err
    · rcases hc : env.fileClose with - | err <;> simp only [MessageStore.exec, hs', hc] <;>
        exact hs
    · simp only [MessageStore.exec, hs']
      exact hs
  | limit l => exact hs

/-! ### Acceptance -/

/-- The receipts of a batch are among those given, each with an ID that is not
in the index. -/
theorem collectReceipts_ok {index : String → Option JournalEntry} {seen : List String}
    {receipts : List (Option JournalEntry)} {batch : List JournalEntry}
    (h : collectReceipts index seen receipts = .ok batch) :
    ∀ e ∈ batch, some e ∈ receipts ∧ e.messageID ≠ "" ∧ index e.messageID = none := by
  induction receipts generalizing seen batch with
  | nil => cases h; intro e he; cases he
  | cons o receipts ih =>
    rcases o with - | receipt
    · intro e he
      obtain ⟨hmem, hrest⟩ := ih h e he
      exact ⟨mem_cons_of_mem _ hmem, hrest⟩
    · simp only [collectReceipts] at h
      split at h
      · cases h
      · next hid =>
        split at h
        · cases h
        · next hnone =>
          split at h
          · cases h
          · next rest hrest =>
            cases h
            intro e he
            rcases mem_cons.mp he with rfl | he
            · exact ⟨mem_cons_self, fun h' => hid (.inl h'), by simpa using hnone⟩
            · obtain ⟨hmem, hrest⟩ := ih hrest e he
              exact ⟨mem_cons_of_mem _ hmem, hrest⟩

theorem withDefaults_messageID_ne (env : Env) (entry : JournalEntry) :
    (withDefaults env entry).messageID ≠ "" := by
  by_cases h : entry.messageID = ""
  · simpa [withDefaults, h] using env.messageUUID_ne
  · simp [withDefaults, h]

theorem storeWithReceipt_cases (env : Env) (s : MessageStore α) (entry : JournalEntry)
    (receipts : List (Option JournalEntry)) :
    (storeWithReceipt env s entry receipts).Idle ∨
      s.index (withDefaults env entry).messageID = none ∧ s.closed = false ∧
        ∃ batch, collectReceipts s.index [(withDefaults env entry).messageID] receipts = .ok batch ∧
          (batch = [] ∧ storeWithReceipt env s entry receipts =
              .write (withDefaults env entry) "failed to journal message: "
                (fun entry t => t.put entry.messageID (cloneEntry entry))
                (.stored (withDefaults env entry).messageID) ∨
            batch ≠ [] ∧ storeWithReceipt env s entry receipts =
              .batch (withDefaults env entry :: batch) "failed to journal message: "
                (publishAll (withDefaults env entry :: batch))
                (.stored (withDefaults env entry).messageID)) := by
  generalize hplan : storeWithReceipt env s entry receipts = plan
  dsimp only [storeWithReceipt] at hplan
  refine Plan.guard hplan trivial fun hnone hplan => ?_
  refine Plan.guard hplan trivial fun hopen hplan => ?_
  split at hplan
  · subst hplan; exact .inl trivial
  split at hplan
  · subst hplan; exact .inl trivial
  split at hplan
  · subst hplan; exact .inl trivial
  · next hbatch =>
    exact .inr ⟨by simpa using hnone, by simpa using hopen, [], hbatch, .inl ⟨rfl, hplan.symm⟩⟩
  · next batch hne hbatch =>
    exact .inr ⟨by simpa using hnone, by simpa using hopen, batch, hbatch,
      .inr ⟨fun h0 => hne (h0 ▸ rfl), hplan.symm⟩⟩

/-! ### Status and recipients -/

/-- The entry `UpdateStatus` journals. -/
def withStatus (env : Env) (status errorMsg : String) (e : JournalEntry) : JournalEntry :=
  let entry := { cloneEntry e with status := status }
  let entry :=
    if status = "processing" then
      { entry with lastAttempt := env.now, attempts := entry.attempts + 1 }
    else entry
  if errorMsg ≠ "" then { entry with errorMessage := errorMsg } else entry

@[simp] theorem withStatus_messageID (status errorMsg : String) (e : JournalEntry) :
    (withStatus env status errorMsg e).messageID = e.messageID := by
  unfold withStatus
  split_ifs <;> rfl

@[simp] theorem withStatus_status (status errorMsg : String) (e : JournalEntry) :
    (withStatus env status errorMsg e).status = status := by
  unfold withStatus
  split_ifs <;> rfl

/-- What `UpdateStatus` publishes. -/
def publishStatus (id status : String) (e : JournalEntry) (t : Tables) : Tables :=
  let t := t.put id e
  let t := if status = "failed" then t.putDLQ id e else t.dropDLQ id
  if status = "delivered" ∨ status = "deleted" then t.drop id else t

theorem updateStatus_cases (env : Env) (s : MessageStore α) (id status errorMsg : String) :
    (updateStatus env s id status errorMsg).Idle ∨
      ∃ e, s.index id = some e ∧ e.meta "compliance" ≠ "true" ∧
        updateStatus env s id status errorMsg =
          .write (withStatus env status errorMsg e) "" (publishStatus id status) .done := by
  dsimp only [updateStatus]
  split
  · exact .inl trivial
  · next e he =>
    split
    · exact .inl trivial
    · next hcompliance => exact .inr ⟨e, he, hcompliance, rfl⟩

theorem updateRecipients_cases (s : MessageStore α) (id : String) (recipients : List String) :
    (updateRecipients s id recipients).Idle ∨
      ∃ e, s.index id = some e ∧ e.meta "compliance" ≠ "true" ∧
        updateRecipients s id recipients =
          .write { e with toAddrs := recipients } "" (fun e t => t.put id e) .done := by
  dsimp only [updateRecipients]
  split
  · exact .inl trivial
  · next e he =>
    split
    · exact .inl trivial
    · next hcompliance => exact .inr ⟨e, he, hcompliance, rfl⟩

/-- The entry `Transition` journals. -/
def withTransition (env : Env) (toStatus : String) (e : JournalEntry) : JournalEntry :=
  let v := { cloneEntry e with status := toStatus }
  if toStatus = "processing" then { v with attempts := v.attempts + 1, lastAttempt := env.now }
  else v

@[simp] theorem withTransition_messageID (toStatus : String) (e : JournalEntry) :
    (withTransition env toStatus e).messageID = e.messageID := by
  unfold withTransition
  split_ifs <;> rfl

@[simp] theorem withTransition_status (toStatus : String) (e : JournalEntry) :
    (withTransition env toStatus e).status = toStatus := by
  unfold withTransition
  split_ifs <;> rfl

theorem transition_cases (env : Env) (s : MessageStore α) (id fromStatus toStatus : String) :
    (transition env s id fromStatus toStatus).Idle ∨
      ∃ e, s.index id = some e ∧ e.status = fromStatus ∧ e.meta "compliance" ≠ "true" ∧
        transition env s id fromStatus toStatus =
          .write (withTransition env toStatus e) ""
            (fun v t => if toStatus = "deleted" then t.drop id else t.put id v) (.flag true) := by
  dsimp only [transition]
  split
  · exact .inl trivial
  · next e he =>
    split
    · exact .inl trivial
    · next hfrom =>
      split
      · exact .inl trivial
      · next hcompliance => exact .inr ⟨e, he, by simpa using hfrom, hcompliance, rfl⟩

theorem retryFromDLQ_cases (s : MessageStore α) (id : String) :
    (retryFromDLQ s id).Idle ∨
      ∃ e, s.index id = some e ∧ e.status = "failed" ∧
        retryFromDLQ s id =
          .write { e with status := "pending", attempts := 0, errorMessage := "" } ""
            (fun v t => (t.put id v).dropDLQ id) .done := by
  dsimp only [retryFromDLQ]
  split
  · exact .inl trivial
  · next e he =>
    split
    · exact .inl trivial
    · next hfailed => exact .inr ⟨e, he, by simpa using hfailed, rfl⟩

theorem releaseHeld_cases (X : Externals) (env : Env) (s : MessageStore α) (id actor : String) :
    (releaseHeld X env s id actor).Idle ∨
      ∃ e metadata, s.index id = some e ∧ e.status = "held" ∧
        releaseHeld X env s id actor =
          .write { e with status := "pending", metadata := metadata } ""
            (fun v t => t.put id v) .done := by
  dsimp only [releaseHeld]
  split
  · exact .inl trivial
  · next e he =>
    split
    · exact .inl trivial
    · next hheld => exact .inr ⟨e, _, he, by simpa using hheld, rfl⟩

/-! ### Workflow records -/

/-- The status a scheduled submission goes to. -/
def scheduledStatus (cancel : Bool) (e : JournalEntry) : String :=
  if cancel then "deleted" else if e.meta "after_schedule" = "held" then "held" else "pending"

theorem finishScheduled_cases (X : Externals) (s : MessageStore α) (receiptID user : String)
    (cancel : Bool) (now : Time) :
    (finishScheduled X s receiptID user cancel now).Idle ∨
      ∃ receipt entry metadata, s.index receiptID = some receipt ∧
        s.index (receipt.meta "queue_id") = some entry ∧ entry.status = "scheduled" ∧
        metadata.get "compliance" = receipt.meta "compliance" ∧
        finishScheduled X s receiptID user cancel now =
          .batch [{ entry with status := scheduledStatus cancel entry },
              { receipt with metadata := metadata }] ""
            (fun t =>
              let t := t.put receipt.messageID { receipt with metadata := metadata }
              if cancel then t.drop entry.messageID
              else t.put entry.messageID { entry with status := scheduledStatus cancel entry })
            (.flag true) := by
  generalize hplan : finishScheduled X s receiptID user cancel now = plan
  dsimp only [finishScheduled] at hplan
  split at hplan
  · subst hplan; exact .inl trivial
  · next receipt hreceipt =>
    refine Plan.guard hplan trivial fun _ hplan => ?_
    split at hplan
    · subst hplan; exact .inl trivial
    refine Plan.guard hplan trivial fun _ hplan => ?_
    refine Plan.guard hplan trivial fun _ hplan => ?_
    split at hplan
    · subst hplan; exact .inl trivial
    · next entry hentry =>
      refine Plan.guard hplan trivial fun hscheduled hplan => ?_
      push Not at hscheduled
      split at hplan
      · subst hplan; exact .inl trivial
      refine Plan.guard hplan trivial fun _ hplan => ?_
      split at hplan
      · subst hplan; exact .inl trivial
      split at hplan
      · subst hplan; exact .inl trivial
      exact .inr ⟨receipt, entry, _, hreceipt, hentry, hscheduled.1,
        Metadata.get_insert_of_ne (by decide), hplan.symm⟩

/-- The records `ExpireWorkflowRecords` finds eligible. -/
def eligible (X : Externals) (env : Env) (s : MessageStore α) (now : Time)
    (receipts sieve : Duration) : List JournalEntry :=
  (env.order.filterMap s.index).filter (expirable X s.index now receipts sieve)

theorem mem_eligible {now : Time} {receipts sieve : Duration}
    (h : e ∈ eligible X env s now receipts sieve) :
    ∃ id, s.index id = some e ∧ expirable X s.index now receipts sieve e = true := by
  obtain ⟨hmem, hexp⟩ := mem_filter.mp h
  obtain ⟨id, -, hid⟩ := mem_filterMap.mp hmem
  exact ⟨id, hid, hexp⟩

/-- An entry turned into its tombstone. -/
def tombstone (e : JournalEntry) : JournalEntry := { cloneEntry e with status := "deleted" }

theorem expireWorkflowRecords_cases (X : Externals) (env : Env) (s : MessageStore α) (now : Time)
    (receipts sieve : Duration) :
    (expireWorkflowRecords X env s now receipts sieve).Idle ∨
      eligible X env s now receipts sieve ≠ [] ∧
        ∃ r, expireWorkflowRecords X env s now receipts sieve =
          .batch ((eligible X env s now receipts sieve).map tombstone) ""
            (fun t => ((eligible X env s now receipts sieve).map tombstone).foldl
              (fun t e => t.drop e.messageID) t) r := by
  dsimp only [expireWorkflowRecords]
  split
  · exact .inl trivial
  · split
    · exact .inl trivial
    · next hne => exact .inr ⟨fun h0 => hne (by simp [eligible] at h0; simpa using h0), _, rfl⟩

theorem storeNotification_cases (env : Env) (s : MessageStore α) (source key : String)
    (child : JournalEntry) :
    (storeNotification env s source key child).Idle ∨
      ∃ parent metadata, s.index source = some parent ∧ s.index child.messageID = none ∧
        metadata.get "compliance" = parent.meta "compliance" ∧
        storeNotification env s source key child =
          .batch [{ parent with metadata := metadata }, child] ""
            (fun t =>
              let t := t.put source { parent with metadata := metadata }
              if child.status ≠ "delivered" then t.put child.messageID (cloneEntry child) else t)
            (.flag true) := by
  generalize hplan : storeNotification env s source key child = plan
  dsimp only [storeNotification] at hplan
  split at hplan
  · subst hplan; exact .inl trivial
  · next parent hparent =>
    refine Plan.guard hplan trivial fun _ hplan => ?_
    refine Plan.guard hplan trivial fun hfresh hplan => ?_
    split at hplan
    · subst hplan; exact .inl trivial
    have hkey : "notice:" ++ key ≠ "compliance" := by
      intro h
      have hlist := congrArg String.toList h
      simp at hlist
    exact .inr ⟨parent, _, hparent, by simpa using hfresh, Metadata.get_insert_of_ne hkey,
      hplan.symm⟩

/-! ### Compliance -/

theorem releaseCompliance_cases (X : Externals) (env : Env) (s : MessageStore α)
    (id actor reason : String) (child : Option JournalEntry) :
    (releaseCompliance X env s id actor reason child).Idle ∨
      ∃ parent c metadata, child = some c ∧ s.index id = some parent ∧
        parent.status = "compliance" ∧ c.messageID = "release-" ++ id ∧
        (c.status = "pending" ∨ c.status = "held") ∧ s.index c.messageID = none ∧
        releaseCompliance X env s id actor reason child =
          .batch [{ parent with status := "compliance_released", metadata := metadata },
              { c with createdAt := env.later }] ""
            (fun t =>
              (t.put id { parent with status := "compliance_released", metadata := metadata }).put
                c.messageID { c with createdAt := env.later }) .done := by
  generalize hplan : releaseCompliance X env s id actor reason child = plan
  dsimp only [releaseCompliance] at hplan
  refine Plan.guard hplan trivial fun _ hplan => ?_
  split at hplan
  · subst hplan; exact .inl trivial
  split at hplan
  · subst hplan; exact .inl trivial
  · next parent hparent =>
    refine Plan.guard hplan trivial fun hheld hplan => ?_
    push Not at hheld
    split at hplan
    · subst hplan; exact .inl trivial
    split at hplan
    · subst hplan; exact .inl trivial
    · next c _ _ =>
      refine Plan.guard hplan trivial fun hchild hplan => ?_
      push Not at hchild
      obtain ⟨hcid, -, hstatus⟩ := hchild
      refine Plan.guard hplan trivial fun _ hplan => ?_
      refine Plan.guard hplan trivial fun hfresh hplan => ?_
      split at hplan
      · subst hplan; exact .inl trivial
      split at hplan
      · subst hplan; exact .inl trivial
      exact .inr ⟨parent, c, _, rfl, hparent, hheld.2.1, hcid, (Decidable.em _).imp_right hstatus,
        by simpa using hfresh, hplan.symm⟩

theorem changeCompliance_cases (env : Env) (s : MessageStore α) (id reason : String) (r : Answer)
    (change : JournalEntry → Except String JournalEntry) :
    (changeCompliance env s id reason r change).Idle ∨
      ∃ e v, s.index id = some e ∧ e.meta "compliance" = "true" ∧ change e = .ok v ∧
        changeCompliance env s id reason r change =
          .write v "" (fun v t => if v.status = "deleted" then t.drop id else t.put id v) r := by
  dsimp only [changeCompliance]
  split
  · exact .inl trivial
  · split
    · exact .inl trivial
    · split
      · exact .inl trivial
      · next e he =>
        split
        · exact .inl trivial
        · next hcompliance =>
          split
          · exact .inl trivial
          · next v hv => exact .inr ⟨e, v, he, by simpa using hcompliance, hv, rfl⟩

section Changes

variable {e v : JournalEntry}

theorem claimRelease_eq (h : claimRelease e = .ok v) :
    e.status = "compliance" ∧ v = { e with status := "compliance_releasing" } := by
  unfold claimRelease at h
  split_ifs at h with hc
  push Not at hc
  cases h
  exact ⟨hc.1, rfl⟩

theorem finishRelease_eq (h : finishRelease e = .ok v) :
    e.status = "compliance_releasing" ∧ v = { e with status := "compliance_released" } := by
  unfold finishRelease at h
  split_ifs at h with hc
  push Not at hc
  cases h
  exact ⟨hc, rfl⟩

theorem setHold_eq {hold : Bool} (h : setHold hold e = .ok v) :
    ∃ metadata, v = { e with metadata := metadata } := by
  unfold setHold at h
  split_ifs at h
  cases h
  exact ⟨_, rfl⟩

theorem deletePreserved_eq {now : Time} (h : deletePreserved X now e = .ok v) :
    v = tombstone e := by
  unfold deletePreserved at h
  split_ifs at h
  split at h
  · cases h
  · split_ifs at h
    cases h
    rfl

end Changes

theorem health_idle (env : Env) (s : MessageStore α) : (health env s).Idle := by
  dsimp only [health]
  split_ifs
  · trivial
  · split
    · trivial
    · split <;> trivial

theorem close_idle (s : MessageStore α) : (close s).Idle := by
  dsimp only [close]
  split_ifs
  · split <;> trivial
  · trivial

end EmailService
