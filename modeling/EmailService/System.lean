/-
EmailService/System.lean

The surroundings of the queue manager: the message store and the tier channels.

`World.Answers` says how they answer a question.  Store calls are carried out
by the store of Store.lean, with journal writes that succeed; `Get` and
`ListByStatus` read its index; a send needs a free slot, or ends otherwise.
Everything else may answer anything.

The rest of the module says once what each store call of the queue manager
does to the index.
-/
import EmailService.Attempt
import EmailService.Refinement

namespace EmailService

open GoStrings Program Function

variable {α : Type}

/-! ### The world -/

structure World (α : Type) where
  store : MessageStore α
  slots : Channel → List Message

variable (F : JournalFormat α)

/-- The journal takes what the plan writes. -/
def Plan.Journalled (env : Env) (s : MessageStore α) : Plan → Prop
  | .write e _ _ _ => ∃ e' j, s.journal.write F env.io env.recordUUID e = (.ok e', j)
  | .batch es _ _ _ => ∃ e' j, s.journal.writeBatch F env.io env.recordUUID es = (.ok e', j)
  | _ => True

/-- A store call in surroundings in which its journal write succeeds. -/
def MessageStore.Calls (X : Externals) (s : MessageStore α) (op : Op) (r : Except String Answer)
    (s' : MessageStore α) : Prop :=
  ∃ env, (op.plan X env s).Journalled F env s ∧ s.call F X env op = (r, s')

def World.Answers (X : Externals) (w : World α) :
    (q : QueueQuery) → q.Reply → World α → Prop
  | .store op, r, w' => w.store.Calls F X op r w'.store ∧ w'.slots = w.slots
  | .get id, r, w' => r = get w.store id ∧ w' = w
  | .listByStatus status tier, r, w' =>
    (∃ order, Traverses order w.store.index ∧ r = listByStatus order w.store status tier) ∧ w' = w
  | .send ch msg, .sent, w' => (w.slots ch).length < ch.capacity ∧
      w' = { w with slots := update w.slots ch (w.slots ch ++ [msg]) }
  | _, _, w' => w' = w

/-- Only store calls change the store. -/
theorem World.Answers.store_eq {F : JournalFormat α} {X : Externals} {w w' : World α}
    {q : QueueQuery} {r : q.Reply} (h : w.Answers F X q r w') (hq : ∀ op, q ≠ .store op) :
    w'.store = w.store := by
  cases q with
  | store op => exact absurd rfl (hq op)
  | get => exact congrArg World.store h.2
  | listByStatus => exact congrArg World.store h.2
  | send ch msg =>
    change SendReply at r
    cases r with
    | sent => obtain ⟨-, rfl⟩ := h; rfl
    | full => exact congrArg World.store h
    | shutdown => exact congrArg World.store h
  | _ => exact congrArg World.store h

/-! ### Carrying out a plan -/

section Exec

variable {F : JournalFormat α} {X : Externals} {env : Env} {s s' : MessageStore α}
  {r : Except String Answer}

variable {context id : String} {a : Answer}

theorem exec_write {e : JournalEntry} {publish : JournalEntry → Tables → Tables}
    (hj : (Plan.write e context publish a).Journalled F env s)
    (h : s.exec F env (.write e context publish a) = (r, s')) :
    r = .ok a ∧ ∃ recordID, s'.toTables = publish { e with id := recordID } s.toTables := by
  obtain ⟨e', j, hw⟩ := hj
  simp only [MessageStore.exec, hw, Prod.mk.injEq] at h
  obtain ⟨rfl, rfl⟩ := h
  obtain rfl := write_ok_eq hw
  exact ⟨rfl, _, by rw [fillID_eq]⟩

theorem exec_batch {es : List JournalEntry} {publish : Tables → Tables}
    (hj : (Plan.batch es context publish a).Journalled F env s)
    (h : s.exec F env (.batch es context publish a) = (r, s')) :
    r = .ok a ∧ s'.toTables = publish s.toTables := by
  obtain ⟨e', j, hw⟩ := hj
  simp only [MessageStore.exec, hw, Prod.mk.injEq] at h
  obtain ⟨rfl, rfl⟩ := h
  exact ⟨rfl, rfl⟩

theorem exec_idle {plan : Plan} (hidle : plan.Idle) (h : s.exec F env plan = (r, s')) :
    s'.toTables = s.toTables := by
  have htables : (s.exec F env plan).2.toTables = s.toTables :=
    exec_tables F (P := fun t => t = s.toTables) rfl (hidle.ensures _ s.toTables)
  rw [h] at htables
  exact htables

/-! ### Calls on one message -/

/-- `v` is the entry `e` in another state of delivery. -/
structure Revises (e v : JournalEntry) : Prop where
  messageID : v.messageID = e.messageID
  metadata : v.metadata = e.metadata
  transaction : v.transaction = e.transaction

/-- The message is in the index with this status, and is not preserved evidence. -/
def Holds (index : String → Option JournalEntry) (id status : String) : Prop :=
  ∃ e, index id = some e ∧ e.status = status ∧ e.meta "compliance" ≠ "true"

theorem revises_withTransition (env : Env) (status : String) (e : JournalEntry) (recordID : String) :
    Revises e { withTransition env status e with id := recordID } := by
  unfold withTransition
  split_ifs <;> exact ⟨rfl, rfl, rfl⟩

theorem withTransition_toAddrs (env : Env) (status : String) (e : JournalEntry) :
    (withTransition env status e).toAddrs = e.toAddrs := by
  unfold withTransition
  split_ifs <;> rfl

/-- `Transition` moves the message on, just if it is where the caller thinks. -/
theorem transition_effect {fromStatus toStatus : String} (hto : toStatus ≠ "deleted")
    (h : s.Calls F X (.transition id fromStatus toStatus) r s') :
    (∃ e v, s.index id = some e ∧ e.status = fromStatus ∧ e.meta "compliance" ≠ "true" ∧
      Revises e v ∧ v.status = toStatus ∧ v.toAddrs = e.toAddrs ∧ r = .ok (.flag true) ∧
      s'.index = update s.index id (some v)) ∨
    (granted r = false ∧ s'.index = s.index ∧ ¬ Holds s.index id fromStatus) := by
  obtain ⟨env, hj, h⟩ := h
  change s.exec F env (transition env s id fromStatus toStatus) = (r, s') at h
  rcases transition_cases env s id fromStatus toStatus with
    hidle | ⟨e, he, hstatus, hcompliance, hplan⟩
  · refine .inr ⟨?_, congrArg Tables.index (exec_idle hidle h), ?_⟩
    · -- an idle transition does not say yes
      unfold transition at h
      split at h
      · cases h; rfl
      · split at h
        · cases h; rfl
        · split at h
          · cases h; rfl
          · next e he hs hc =>
            exact absurd hidle (by simp [transition, he, not_not.mp hs, hc, Plan.Idle])
    · rintro ⟨e, he, hstatus, hcompliance⟩
      exact absurd hidle (by simp [transition, he, hstatus, hcompliance, Plan.Idle])
  · rw [hplan] at h
    obtain ⟨hr, recordID, htables⟩ := exec_write (hplan ▸ hj) h
    refine .inl ⟨e, { withTransition env toStatus e with id := recordID }, he, hstatus,
      hcompliance, revises_withTransition env toStatus e recordID, withTransition_status _ _,
      withTransition_toAddrs _ _ _, hr, ?_⟩
    rw [htables, if_neg hto]
    rfl

theorem revises_withStatus (env : Env) (status errorMsg : String) (e : JournalEntry)
    (recordID : String) : Revises e { withStatus env status errorMsg e with id := recordID } := by
  unfold withStatus
  split_ifs <;> exact ⟨rfl, rfl, rfl⟩

theorem withStatus_toAddrs (env : Env) (status errorMsg : String) (e : JournalEntry) :
    (withStatus env status errorMsg e).toAddrs = e.toAddrs := by
  unfold withStatus
  split_ifs <;> rfl

theorem updateStatus_effect {status errorMsg : String}
    (h : s.Calls F X (.updateStatus id status errorMsg) r s') :
    (∃ e v, s.index id = some e ∧ e.meta "compliance" ≠ "true" ∧ Revises e v ∧
      v.status = status ∧ v.toAddrs = e.toAddrs ∧ r = .ok .done ∧
      s'.index = update s.index id (if Terminal status then none else some v)) ∨
    ((∃ err, r = .error err) ∧ s'.index = s.index ∧
      ¬ ∃ e, s.index id = some e ∧ e.meta "compliance" ≠ "true") := by
  obtain ⟨env, hj, h⟩ := h
  change s.exec F env (updateStatus env s id status errorMsg) = (r, s') at h
  rcases updateStatus_cases env s id status errorMsg with hidle | ⟨e, he, hcompliance, hplan⟩
  · have hnot : ¬ ∃ e, s.index id = some e ∧ e.meta "compliance" ≠ "true" := by
      rintro ⟨e, he, hcompliance⟩
      exact absurd hidle (by simp [updateStatus, he, hcompliance, Plan.Idle])
    refine .inr ⟨?_, congrArg Tables.index (exec_idle hidle h), hnot⟩
    unfold updateStatus at h
    split at h
    · cases h; exact ⟨_, rfl⟩
    · next e he =>
      dsimp only [cloneEntry] at h
      rw [if_pos (not_not.mp fun hc => hnot ⟨e, he, hc⟩)] at h
      cases h
      exact ⟨_, rfl⟩
  · rw [hplan] at h
    obtain ⟨hr, recordID, htables⟩ := exec_write (hplan ▸ hj) h
    refine .inl ⟨e, { withStatus env status errorMsg e with id := recordID }, he, hcompliance,
      revises_withStatus env status errorMsg e recordID, withStatus_status _ _ _,
      withStatus_toAddrs _ _ _ _, hr, ?_⟩
    rw [htables, publishStatus_index]

theorem updateRecipients_effect {recipients : List String}
    (h : s.Calls F X (.updateRecipients id recipients) r s') :
    (∃ e v, s.index id = some e ∧ e.meta "compliance" ≠ "true" ∧ Revises e v ∧
      v.status = e.status ∧ v.toAddrs = recipients ∧ r = .ok .done ∧
      s'.index = update s.index id (some v)) ∨
    ((∃ err, r = .error err) ∧ s'.index = s.index ∧
      ¬ ∃ e, s.index id = some e ∧ e.meta "compliance" ≠ "true") := by
  obtain ⟨env, hj, h⟩ := h
  change s.exec F env (updateRecipients s id recipients) = (r, s') at h
  rcases updateRecipients_cases s id recipients with hidle | ⟨e, he, hcompliance, hplan⟩
  · have hnot : ¬ ∃ e, s.index id = some e ∧ e.meta "compliance" ≠ "true" := by
      rintro ⟨e, he, hcompliance⟩
      exact absurd hidle (by simp [updateRecipients, he, hcompliance, Plan.Idle])
    refine .inr ⟨?_, congrArg Tables.index (exec_idle hidle h), hnot⟩
    unfold updateRecipients at h
    split at h
    · cases h; exact ⟨_, rfl⟩
    · next e he =>
      dsimp only [cloneEntry] at h
      rw [if_pos (not_not.mp fun hc => hnot ⟨e, he, hc⟩)] at h
      cases h
      exact ⟨_, rfl⟩
  · rw [hplan] at h
    obtain ⟨hr, recordID, htables⟩ := exec_write (hplan ▸ hj) h
    refine .inl ⟨e, { e with toAddrs := recipients, id := recordID }, he, hcompliance,
      ⟨rfl, rfl, rfl⟩, rfl, rfl, hr, ?_⟩
    rw [htables]
    rfl

end Exec

/-! ### Calls that leave messages in delivery alone -/

/-- A message in delivery. -/
def Busy (status : String) : Prop := status = "queued" ∨ status = "processing"

instance (status : String) : Decidable (Busy status) :=
  inferInstanceAs (Decidable (_ ∨ _))

/-- The same as far as delivery goes. -/
structure Alike (e e' : JournalEntry) : Prop where
  status : e'.status = e.status
  toAddrs : e'.toAddrs = e.toAddrs
  compliance : e'.meta "compliance" = e.meta "compliance"

/-- The messages in delivery are the same in both. -/
def SameBusy (index index' : String → Option JournalEntry) : Prop :=
  ∀ id, (∀ e, index id = some e → Busy e.status → ∃ e', index' id = some e' ∧ Alike e e') ∧
    (∀ e', index' id = some e' → Busy e'.status → ∃ e, index id = some e ∧ Alike e e')

/-- Entries are under their message IDs, and Sieve IDs are for Sieve records. -/
structure Tidy (index : String → Option JournalEntry) : Prop where
  keyed : ∀ id e, index id = some e → e.messageID = id
  sieve : ∀ id e, index id = some e → hasPrefix id "sieve-" = true → e.status = "sieve_effect"

section Passive

variable {index index' index'' : String → Option JournalEntry}

theorem Alike.refl (e : JournalEntry) : Alike e e := ⟨rfl, rfl, rfl⟩

theorem SameBusy.refl (index : String → Option JournalEntry) : SameBusy index index :=
  fun _ => ⟨fun e he _ => ⟨e, he, .refl e⟩, fun e he _ => ⟨e, he, .refl e⟩⟩

theorem SameBusy.trans (h : SameBusy index index') (h' : SameBusy index' index'') :
    SameBusy index index'' := by
  refine fun id => ⟨fun e he hbusy => ?_, fun e'' he'' hbusy => ?_⟩
  · obtain ⟨e', he', h₁⟩ := (h id).1 e he hbusy
    obtain ⟨e'', he'', h₂⟩ := (h' id).1 e' he' (by rwa [h₁.status])
    exact ⟨e'', he'', h₂.status.trans h₁.status, h₂.toAddrs.trans h₁.toAddrs,
      h₂.compliance.trans h₁.compliance⟩
  · obtain ⟨e', he', h₂⟩ := (h' id).2 e'' he'' hbusy
    obtain ⟨e, he, h₁⟩ := (h id).2 e' he' (by rwa [← h₂.status])
    exact ⟨e, he, h₂.status.trans h₁.status, h₂.toAddrs.trans h₁.toAddrs,
      h₂.compliance.trans h₁.compliance⟩

variable {k id actor : String} {o : Option JournalEntry} {e e' : JournalEntry}

theorem SameBusy.update
    (hold : ∀ e, index k = some e → Busy e.status → ∃ e', o = some e' ∧ Alike e e')
    (hnew : ∀ e', o = some e' → Busy e'.status → ∃ e, index k = some e ∧ Alike e e') :
    SameBusy index (update index k o) := by
  intro id
  by_cases hid : id = k
  · subst hid
    rw [update_self]
    exact ⟨hold, hnew⟩
  · rw [update_of_ne hid]
    exact SameBusy.refl index id

/-- An entry that is not in delivery is put, replaced or dropped. -/
theorem SameBusy.update_idle (hold : ∀ e, index k = some e → ¬ Busy e.status)
    (hnew : ∀ e, o = some e → ¬ Busy e.status) : SameBusy index (Function.update index k o) :=
  .update (fun e he hbusy => absurd hbusy (hold e he)) fun e he hbusy => absurd hbusy (hnew e he)

theorem SameBusy.update_alike (he : index k = some e) (halike : Alike e e') :
    SameBusy index (Function.update index k (some e')) := by
  refine .update (fun e₁ he₁ _ => ?_) fun e₁ he₁ _ => ?_
  · rw [he] at he₁
    cases he₁
    exact ⟨e', rfl, halike⟩
  · cases he₁
    exact ⟨e, he, halike⟩

theorem Tidy.update (h : Tidy index) (hkeyed : ∀ e, o = some e → e.messageID = k)
    (hsieve : ∀ e, o = some e → hasPrefix k "sieve-" = true → e.status = "sieve_effect") :
    Tidy (update index k o) := by
  refine ⟨fun id e he => ?_, fun id e he hid => ?_⟩ <;> by_cases hk : id = k
  · subst hk
    rw [update_self] at he
    exact hkeyed e he
  · rw [update_of_ne hk] at he
    exact h.keyed id e he
  · subst hk
    rw [update_self] at he
    exact hsieve e he hid
  · rw [update_of_ne hk] at he
    exact h.sieve id e he hid

/-- An entry with another status than a Sieve record has no Sieve ID. -/
theorem Tidy.not_sieve (h : Tidy index) (he : index id = some e)
    (hstatus : e.status ≠ "sieve_effect") : hasPrefix id "sieve-" = false := by
  rw [Bool.eq_false_iff]
  exact fun hid => hstatus (h.sieve id e he hid)

/-- The same message and no other: recipients and children stay. -/
structure Kin (e e' : JournalEntry) : Prop where
  messageID : e'.messageID = e.messageID
  toAddrs : e'.toAddrs = e.toAddrs
  transaction : e'.transaction = e.transaction

/-- Entries are kin to those before, or new and without children. -/
def Evolves (index index' : String → Option JournalEntry) : Prop :=
  ∀ id e', index' id = some e' →
    (∃ e, index id = some e ∧ Kin e e') ∨ (index id = none ∧ e'.transaction = [])

theorem Evolves.refl (index : String → Option JournalEntry) : Evolves index index :=
  fun _ e he => .inl ⟨e, he, rfl, rfl, rfl⟩

theorem Evolves.update (h : Evolves index index')
    (ho : ∀ e', o = some e' → (∃ e, index' k = some e ∧ Kin e e') ∨ (index k = none ∧
      e'.transaction = [])) : Evolves index (update index' k o) := by
  intro id e' he'
  by_cases hid : id = k
  · subst hid
    rw [update_self] at he'
    rcases ho e' he' with ⟨e₁, he₁, hkin⟩ | hnew
    · rcases h id e₁ he₁ with ⟨e, he, hkin₁⟩ | ⟨hnone, htransaction⟩
      · exact .inl ⟨e, he, hkin.messageID.trans hkin₁.messageID,
          hkin.toAddrs.trans hkin₁.toAddrs, hkin.transaction.trans hkin₁.transaction⟩
      · exact .inr ⟨hnone, hkin.transaction.trans htransaction⟩
    · exact .inr hnew
  · rw [update_of_ne hid] at he'
    exact h id e' he'

/-- What has failed stays that way. -/
def StayFailed (index index' : String → Option JournalEntry) : Prop :=
  ∀ id e, index id = some e → e.status = "failed" →
    ∃ e', index' id = some e' ∧ e'.status = "failed"

theorem StayFailed.refl (index : String → Option JournalEntry) : StayFailed index index :=
  fun _ e he hfailed => ⟨e, he, hfailed⟩

theorem StayFailed.update (h : StayFailed index index')
    (ho : index k ≠ none → ∀ e, index' k = some e → e.status = "failed" → ∃ e', o = some e' ∧
      e'.status = "failed") : StayFailed index (update index' k o) := by
  intro id e he hfailed
  obtain ⟨e₁, he₁, hfailed₁⟩ := h id e he hfailed
  by_cases hid : id = k
  · subst hid
    rw [update_self]
    exact ho (by rw [he]; exact Option.some_ne_none e) e₁ he₁ hfailed₁
  · rw [update_of_ne hid]
    exact ⟨e₁, he₁, hfailed₁⟩

/-- Calls that leave messages in delivery alone and the index tidy. -/
structure Passive (index index' : String → Option JournalEntry) : Prop where
  same : SameBusy index index'
  tidy : Tidy index'
  evolves : Evolves index index'
  failed : StayFailed index index'

theorem Passive.refl (h : Tidy index) : Passive index index :=
  ⟨.refl index, h, .refl index, .refl index⟩

section

variable (h : Passive index index')

include h

/-- Then an entry is revised and keeps its status. -/
theorem Passive.revise (he : index' k = some e) (hkin : Kin e e')
    (halike : Alike e e') : Passive index (update index' k (some e')) := by
  refine ⟨h.same.trans (.update_alike he halike), h.tidy.update ?_ ?_, h.evolves.update ?_,
    h.failed.update fun _ e₁ he₁ hfailed => ⟨e', rfl, ?_⟩⟩
  · rintro _ ⟨rfl⟩
    exact hkin.messageID.trans (h.tidy.keyed k e he)
  · rintro _ ⟨rfl⟩ hsieve
    exact halike.status.trans (h.tidy.sieve k e he hsieve)
  · rintro _ ⟨rfl⟩
    exact .inl ⟨e, he, hkin⟩
  · rw [he] at he₁
    cases he₁
    exact halike.status.trans hfailed

/-- Then an entry that is not in delivery, has not failed and is no Sieve record
gets a status outside delivery. -/
theorem Passive.restatus (he : index' k = some e)
    (hidle : ¬ Busy e.status) (hopen : e.status ≠ "failed") (hstatus : e.status ≠ "sieve_effect")
    (hkin : Kin e e') (hnew : ¬ Busy e'.status) :
    Passive index (update index' k (some e')) := by
  refine ⟨h.same.trans (.update_idle ?_ ?_), h.tidy.update ?_ ?_, h.evolves.update ?_,
    h.failed.update fun _ e₁ he₁ hfailed => ?_⟩
  · intro e₁ he₁
    rw [he] at he₁
    cases he₁
    exact hidle
  · rintro _ ⟨rfl⟩
    exact hnew
  · rintro _ ⟨rfl⟩
    exact hkin.messageID.trans (h.tidy.keyed k e he)
  · rintro _ _ hsieve
    exact absurd (h.tidy.sieve k e he hsieve) hstatus
  · rintro _ ⟨rfl⟩
    exact .inl ⟨e, he, hkin⟩
  · rw [he] at he₁
    cases he₁
    exact absurd hfailed hopen

/-- Then a new entry is put that is not in delivery. -/
theorem Passive.put (hnone : index k = none) (hkeyed : e'.messageID = k)
    (hnew : ¬ Busy e'.status) (htransaction : e'.transaction = [])
    (hsieve : hasPrefix k "sieve-" = true → e'.status = "sieve_effect") :
    Passive index (update index' k (some e')) := by
  refine ⟨h.same.trans (.update_idle ?_ ?_), h.tidy.update ?_ ?_, h.evolves.update ?_,
    h.failed.update fun hne => absurd hnone hne⟩
  · intro e he hbusy
    obtain ⟨e₀, he₀, -⟩ := (h.same k).2 e he hbusy
    rw [hnone] at he₀
    cases he₀
  · rintro _ ⟨rfl⟩
    exact hnew
  · rintro _ ⟨rfl⟩
    exact hkeyed
  · rintro _ ⟨rfl⟩
    exact hsieve
  · rintro _ ⟨rfl⟩
    exact .inr ⟨hnone, htransaction⟩

/-- Then an entry that is not in delivery and has not failed is dropped. -/
theorem Passive.drop (hold : ∀ e, index' k = some e → ¬ Busy e.status ∧ e.status ≠ "failed") :
    Passive index (Function.update index' k none) :=
  ⟨h.same.trans (.update_idle (fun e he => (hold e he).1) (fun _ h => nomatch h)),
    h.tidy.update (fun _ h => nomatch h) (fun _ h => nomatch h),
    h.evolves.update (fun _ h => nomatch h),
    h.failed.update fun _ e he hfailed => absurd hfailed (hold e he).2⟩

end

variable {F : JournalFormat α} {X : Externals} {s s' : MessageStore α} {r : Except String Answer}

/-- What the cases of a call say about it: idle, or what its plan publishes. -/
theorem call_passive {op : Op} (h : Tidy s.index) (hcall : s.Calls F X op r s')
    (hplan : ∀ env, (op.plan X env s).Ensures (fun t => Passive s.index t.index) s.toTables) :
    Passive s.index s'.index := by
  obtain ⟨env, -, hcall⟩ := hcall
  have htables : Passive s.index (s.exec F env (op.plan X env s)).2.index :=
    exec_tables F (P := fun t => Passive s.index t.index) (.refl h) (hplan env)
  rw [show s.exec F env (op.plan X env s) = (r, s') from hcall] at htables
  exact htables

theorem not_busy_of_plain (h : Plain e) : ¬ Busy e.status := by
  intro hbusy
  apply h.status
  rcases hbusy with hbusy | hbusy <;> simp [hbusy]

theorem plain_withDefaults (h : Plain e) (env : Env) : Plain (withDefaults env e) := by
  have hid : (withDefaults env e).messageID = e.messageID := if_neg h.messageID
  by_cases hstatus : e.status = ""
  · have hs : (withDefaults env e).status = "pending" := if_pos hstatus
    refine ⟨by rw [hid]; exact h.messageID, h.transaction, by rw [hs]; simp, fun hsieve => ?_⟩
    rw [hid] at hsieve
    exact absurd ((h.sieve hsieve).symm.trans hstatus) (by decide)
  · have hs : (withDefaults env e).status = e.status := if_neg hstatus
    exact ⟨by rw [hid]; exact h.messageID, h.transaction, by rw [hs]; exact h.status,
      by rw [hid, hs]; exact h.sieve⟩

theorem publishAll_passive {es : List JournalEntry} {t : Tables} (h : Passive index t.index)
    (hes : ∀ e ∈ es, Plain e ∧ index e.messageID = none) :
    Passive index (publishAll es t).index := by
  induction es generalizing t with
  | nil => exact h
  | cons e es ih =>
    obtain ⟨hplain, hnone⟩ := hes e List.mem_cons_self
    have hput : Passive index (t.put e.messageID e).index :=
      h.put hnone rfl (not_busy_of_plain hplain) hplain.transaction hplain.sieve
    exact ih hput fun e₂ he₂ => hes e₂ (List.mem_cons_of_mem _ he₂)

section

variable (h : Tidy s.index)

include h

theorem storeWithReceipt_passive {receipts : List (Option JournalEntry)}
    (he : Plain e) (hreceipts : ∀ receipt, some receipt ∈ receipts → Plain receipt)
    (hcall : s.Calls F X (.storeWithReceipt e receipts) r s') : Passive s.index s'.index := by
  refine call_passive h hcall fun env => ?_
  have hplain := plain_withDefaults he env
  rcases storeWithReceipt_cases env s e receipts with
    hidle | ⟨hnone, -, batch, hbatch, ⟨-, hplan⟩ | ⟨-, hplan⟩⟩
  · exact hidle.ensures _ _
  · show ((storeWithReceipt env s e receipts)).Ensures _ _
    rw [hplan]
    intro recordID
    refine (Passive.refl h).put hnone rfl ?_ hplain.transaction hplain.sieve
    exact show ¬ Busy (withDefaults env e).status from not_busy_of_plain hplain
  · show ((storeWithReceipt env s e receipts)).Ensures _ _
    rw [hplan]
    refine publishAll_passive (.refl h) fun e' he' => ?_
    rcases List.mem_cons.mp he' with rfl | he'
    · exact ⟨hplain, hnone⟩
    · obtain ⟨hmem, -, hfresh⟩ := collectReceipts_ok hbatch e' he'
      exact ⟨hreceipts e' hmem, hfresh⟩

theorem storeNotification_passive {source key : String} {child : JournalEntry}
    (hid : hasPrefix child.messageID "sieve-" = false) (htransaction : child.transaction = [])
    (hstatus : child.status = "delivered" ∨ child.status = "pending")
    (hcall : s.Calls F X (.storeNotification source key child) r s') :
    Passive s.index s'.index := by
  refine call_passive h hcall fun env => ?_
  rcases storeNotification_cases env s source key child with
    hidle | ⟨parent, metadata, hparent, hnone, hkept, hplan⟩
  · exact hidle.ensures _ _
  · show (storeNotification env s source key child).Ensures _ _
    rw [hplan]
    have hsaved : Passive s.index (s.toTables.put source { parent with metadata := metadata }).index :=
      (Passive.refl h).revise hparent ⟨rfl, rfl, rfl⟩ ⟨rfl, rfl, hkept⟩
    show Passive s.index (Tables.index (if _ then _ else _))
    split
    · next hne =>
      refine hsaved.put hnone rfl ?_ htransaction fun hsieve => ?_
      · rw [show (cloneEntry child).status = "pending" from hstatus.resolve_left hne]
        decide
      · exact absurd (hid.symm.trans hsieve) Bool.false_ne_true
    · exact hsaved

theorem finishScheduled_passive {receiptID user : String} {cancel : Bool}
    {now : Time} (hcall : s.Calls F X (.finishScheduled receiptID user cancel now) r s') :
    Passive s.index s'.index := by
  refine call_passive h hcall fun env => ?_
  rcases finishScheduled_cases X s receiptID user cancel now with
    hidle | ⟨receipt, entry, metadata, hreceipt, hentry, hscheduled, hkept, hplan⟩
  · exact hidle.ensures _ _
  · show (finishScheduled X s receiptID user cancel now).Ensures _ _
    rw [hplan]
    have hreceiptID := h.keyed _ _ hreceipt
    have hentryID := h.keyed _ _ hentry
    have hsaved : Passive s.index
        (s.toTables.put receipt.messageID { receipt with metadata := metadata }).index :=
      (Passive.refl h).revise (e := receipt) (by rw [hreceiptID, hreceipt]) ⟨rfl, rfl, rfl⟩
        ⟨rfl, rfl, hkept⟩
    -- the entry was waiting for its time, so it is not in delivery
    have hwaiting : ∃ e, (s.toTables.put receipt.messageID
        { receipt with metadata := metadata }).index entry.messageID = some e ∧
        e.status = "scheduled" ∧ Kin e entry := by
      by_cases hid : entry.messageID = receipt.messageID
      · have hsame : receipt = entry := by
          rw [← hentryID, hid, hreceiptID, hreceipt] at hentry
          exact Option.some.inj hentry
        subst hsame
        exact ⟨_, update_self .., hscheduled, rfl, rfl, rfl⟩
      · refine ⟨entry, ?_, hscheduled, rfl, rfl, rfl⟩
        exact (update_of_ne hid _ _).trans (by rw [hentryID, hentry])
    obtain ⟨e, he, hstatus, hkin⟩ := hwaiting
    have hidle : ¬ Busy e.status ∧ e.status ≠ "failed" := by
      rw [hstatus]
      decide
    show Passive s.index (Tables.index (if _ then _ else _))
    split
    · refine hsaved.drop fun e' he' => ?_
      rw [show (s.toTables.put receipt.messageID
        { receipt with metadata := metadata }).index entry.messageID = some e' from he'] at he
      cases he
      exact hidle
    · next hcancel =>
      refine hsaved.restatus he hidle.1 hidle.2 (by rw [hstatus]; decide)
        ⟨hkin.messageID, hkin.toAddrs, hkin.transaction⟩ ?_
      show ¬ Busy (scheduledStatus cancel entry)
      unfold scheduledStatus
      rw [if_neg hcancel]
      split <;> decide

theorem releaseHeld_passive (hcall : s.Calls F X (.releaseHeld id actor) r s') :
    Passive s.index s'.index := by
  refine call_passive h hcall fun env => ?_
  rcases releaseHeld_cases X env s id actor with hidle | ⟨e, metadata, he, hheld, hplan⟩
  · exact hidle.ensures _ _
  · show (releaseHeld X env s id actor).Ensures _ _
    rw [hplan]
    refine fun recordID => (Passive.refl h).restatus he ?_ ?_ ?_ ⟨rfl, rfl, rfl⟩ ?_
    · rw [hheld]
      decide
    · rw [hheld]
      decide
    · rw [hheld]
      decide
    · exact (by decide : ¬ Busy "pending")

theorem releaseCompliance_passive {reason : String} {child : Option JournalEntry}
    (htransaction : ∀ c ∈ child, c.transaction = [])
    (hcall : s.Calls F X (.releaseCompliance id actor reason child) r s') :
    Passive s.index s'.index := by
  refine call_passive h hcall fun env => ?_
  rcases releaseCompliance_cases X env s id actor reason child with
    hidle | ⟨parent, c, metadata, hc, hparent, hpreserved, hid, hstatus, hnone, hplan⟩
  · exact hidle.ensures _ _
  · show (releaseCompliance X env s id actor reason child).Ensures _ _
    rw [hplan]
    have hsaved : Passive s.index (s.toTables.put id
        { parent with status := "compliance_released", metadata := metadata }).index := by
      refine (Passive.refl h).restatus hparent ?_ ?_ ?_ ⟨rfl, rfl, rfl⟩ ?_
      · rw [hpreserved]
        decide
      · rw [hpreserved]
        decide
      · rw [hpreserved]
        decide
      · exact (by decide : ¬ Busy "compliance_released")
    refine hsaved.put hnone rfl ?_ (htransaction c hc) fun hsieve => ?_
    · show ¬ Busy c.status
      rcases hstatus with h | h <;> rw [h] <;> decide
    · rw [hid] at hsieve
      have hlist := List.isPrefixOf_iff_prefix.mp hsieve
      simp at hlist

/-- A Sieve record is put away. -/
theorem updateStatus_sieve_passive {errorMsg : String}
    (hid : hasPrefix id "sieve-" = true)
    (hcall : s.Calls F X (.updateStatus id "delivered" errorMsg) r s') :
    Passive s.index s'.index := by
  rcases updateStatus_effect hcall with ⟨e, v, he, -, -, -, -, -, hindex⟩ | ⟨-, hindex, -⟩
  · rw [hindex, if_pos (.inl rfl)]
    refine (Passive.refl h).drop fun e' he' => ?_
    rw [h.sieve _ _ he' hid]
    decide
  · rw [hindex]
    exact .refl h

end

end Passive

end EmailService
