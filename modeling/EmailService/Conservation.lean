/-
EmailService/Conservation.lean

The recipients stored for a message in delivery.

A store call of one party leaves the recipients of every message in delivery as
they are, except for a checkpoint of its own message, and for the call that
takes its own message out of the index (`stored_store`).  With the monitor
`tally` this gives what one processing attempt keeps
(`recipients_conserved`): at every point the stored list contains the
recipients that are kept for a retry or still to come, also in what recovery
would rebuild after a crash, and in the end it is exactly that list.
-/
import EmailService.Ownership

namespace EmailService

open GoStrings KeyedLog Program Threads List Function Option Prod

variable {α : Type} {F : JournalFormat α} {X : Externals} {qm : QueueManager}

/-! ### The recipients stored for a message in delivery -/

/-- The recipients stored for a message. -/
def storedFor (w : World α) (id : String) : Option (List String) :=
  (w.store.index id).map JournalEntry.toAddrs

variable {w : World α} {id : String}

theorem storedFor_eq_some {stored : List String} :
    storedFor w id = some stored ↔ ∃ e, w.store.index id = some e ∧ e.toAddrs = stored :=
  map_eq_some_iff

section Stored

variable {w w' : World α} {before after : List (List Holding)} {l : List Holding} {id : String}
  {stored : List String} {r : Except String Answer}

variable {op : Op}

/-- What a store call does to the entry of a message in delivery. -/
theorem entry_store (h : Exclusive w (before ++ l :: after)) (hallow : Owner.Allows l (.store op))
    (hcall : w.store.Calls F X op r w'.store) {e : JournalEntry} (he : w.store.index id = some e)
    (hbusy : Busy e.status) :
    (∃ e', w'.store.index id = some e' ∧ e'.toAddrs = op.stores id e.toAddrs r ∧
      (Busy e'.status ∨ op.removes = false)) ∨
    (w'.store.index id = none ∧ op.removes = true) := by
  have hpassive : Passive w.store.index w'.store.index → ∃ e', w'.store.index id = some e' ∧
      e'.toAddrs = e.toAddrs ∧ Busy e'.status := by
    intro hpassive
    obtain ⟨e', he', halike⟩ := (hpassive.same id).1 e he hbusy
    exact ⟨e', he', halike.toAddrs, halike.status ▸ hbusy⟩
  have hkeep : Passive w.store.index w'.store.index → op.stores id e.toAddrs r = e.toAddrs →
      (∃ e', w'.store.index id = some e' ∧ e'.toAddrs = op.stores id e.toAddrs r ∧
        (Busy e'.status ∨ op.removes = false)) ∨ (w'.store.index id = none ∧ op.removes = true) := by
    intro h hstores
    obtain ⟨e', he', hto, hbusy'⟩ := hpassive h
    exact .inl ⟨e', he', hto.trans hstores.symm, .inl hbusy'⟩
  cases op with
  | transition id' fromStatus toStatus =>
    have hto : toStatus ≠ "deleted" := by
      rcases hallow with ⟨-, rfl⟩ | ⟨-, -, rfl | rfl⟩ <;> decide
    rcases transition_effect hto hcall with
      ⟨e₁, v, he₁, -, -, -, -, haddrs, -, hindex⟩ | ⟨-, hindex, -⟩
    · by_cases hid : id = id'
      · subst hid
        rw [he] at he₁
        cases he₁
        exact .inl ⟨v, by rw [hindex, update_self], haddrs, .inr rfl⟩
      · exact .inl ⟨e, by rw [hindex, update_of_ne hid, he], rfl, .inr rfl⟩
    · exact .inl ⟨e, by rw [hindex, he], rfl, .inr rfl⟩
  | updateStatus id' status errorMsg =>
    rcases hallow with ⟨rfl, hsieve⟩ | -
    · exact hkeep (updateStatus_sieve_passive h.tidy hsieve hcall) rfl
    · rcases updateStatus_effect hcall with
        ⟨e₁, v, he₁, -, -, -, haddrs, -, hindex⟩ | ⟨-, hindex, -⟩
      · by_cases hid : id = id'
        · subst hid
          rw [he] at he₁
          cases he₁
          rw [hindex, update_self]
          by_cases hterminal : Terminal status
          · exact .inr ⟨if_pos hterminal, decide_eq_true hterminal⟩
          · exact .inl ⟨v, if_neg hterminal, haddrs, .inr (decide_eq_false hterminal)⟩
        · exact .inl ⟨e, by rw [hindex, update_of_ne hid, he], rfl, .inl hbusy⟩
      · exact .inl ⟨e, by rw [hindex, he], rfl, .inl hbusy⟩
  | updateRecipients id' recipients =>
    rcases updateRecipients_effect hcall with
      ⟨e₁, v, he₁, -, -, -, haddrs, rfl, hindex⟩ | ⟨⟨err, rfl⟩, hindex, -⟩
    · by_cases hid : id = id'
      · subst hid
        exact .inl ⟨v, by rw [hindex, update_self], haddrs.trans (if_pos rfl).symm,
          .inr rfl⟩
      · exact .inl ⟨e, by rw [hindex, update_of_ne hid, he],
          (if_neg (Ne.symm hid)).symm, .inr rfl⟩
    · exact .inl ⟨e, by rw [hindex, he], rfl, .inr rfl⟩
  | storeWithReceipt e receipts =>
    exact hkeep (storeWithReceipt_passive h.tidy hallow.1 hallow.2 hcall) rfl
  | storeNotification source key child =>
    exact hkeep (storeNotification_passive h.tidy hallow.2.2.1 hallow.2.1 hallow.2.2.2 hcall) rfl
  | finishScheduled receiptID user cancel now =>
    exact hkeep (finishScheduled_passive h.tidy hcall) rfl
  | releaseHeld id actor => exact hkeep (releaseHeld_passive h.tidy hcall) rfl
  | releaseCompliance id actor reason child =>
    exact hkeep (releaseCompliance_passive h.tidy hallow hcall) rfl
  | _ => exact hallow.elim

/-- After a store call, a message that is still held has the recipients the call
stores, and one that is no longer held may be removed. -/
theorem stored_store (h : Exclusive w (before ++ l :: after)) (hallow : Owner.Allows l (.store op))
    (hcall : w.store.Calls F X op r w'.store) (hslots : w'.slots = w.slots)
    (hid : id ∈ w.holders (before ++ l :: after)) (hstored : storedFor w id = some stored) :
    storedFor w' id = if id ∈ w'.holders (before ++ Owner.track l (.store op) r :: after)
      then some (op.stores id stored r)
      else if op.removes then none else some (op.stores id stored r) := by
  have h' := (exclusive_store h hallow hcall hslots).2
  obtain ⟨e, he, rfl⟩ := storedFor_eq_some.mp hstored
  have hbusy : Busy e.status := by
    obtain ⟨status, hbusy, e₁, he₁, rfl, -⟩ := h.holds hid
    rw [he] at he₁
    cases he₁
    exact hbusy
  rcases entry_store h hallow hcall he hbusy with ⟨e', he', haddrs, hstatus⟩ | ⟨hnone, hremoves⟩
  · have hstored' : storedFor w' id = some (op.stores id e.toAddrs r) :=
      storedFor_eq_some.mpr ⟨e', he', haddrs⟩
    rw [hstored']
    split
    · rfl
    · next hnot =>
      rw [hstatus.resolve_left fun hbusy' => hnot (h'.covered id e' he' hbusy')]
      rfl
  · have hnot : id ∉ w'.holders (before ++ Owner.track l (.store op) r :: after) := by
      intro hid'
      obtain ⟨status, -, e', he', -⟩ := h'.holds hid'
      rw [hnone] at he'
      cases he'
    rw [if_neg hnot, if_pos hremoves, storedFor, hnone]
    rfl

end Stored

/-! ### The book of a worker -/

/-- The book is right: while the message is in hand, its recipients are those in
the book, and once it is out of hand, they are what was left. -/
def Tally.Right (l : Tally) (w : World α) (id : String) : Prop :=
  ∃ stored, l.book = some (id, stored) ∧
    (l.Steady ∧ storedFor w id = some stored ∨ ∃ o, l.left = some o ∧ storedFor w id = o)

section Book

variable {w w' : World α} {before after : List (List Holding)} {l : Tally} {id : String}
  {q : QueueQuery} {r : q.Reply} {stored : List String}

theorem right_store {op : Op} {r : Except String Answer}
    (h : Exclusive w (before ++ l.hand :: after)) (hl : l.Steady)
    (hallow : Owner.Allows l.hand (.store op)) (hcall : w.store.Calls F X op r w'.store)
    (hslots : w'.slots = w.slots) (hbook : l.book = some (id, stored))
    (hstored : storedFor w id = some stored) : (l.trackStore op r).Right w' id := by
  have hmem := hl.own id stored hbook
  have hheld : id ∈ w.holders (before ++ l.hand :: after) := mem_holders_iff.mpr (.inl hmem)
  have hstep := stored_store h hallow hcall hslots hheld hstored
  -- nobody else holds the message, before or after
  have hmine : id ∈ w'.holders (before ++ Owner.track l.hand (.store op) r :: after) ↔
      id ∈ (Owner.track l.hand (.store op) r).map fst := by
    rw [mem_holders_iff, World.holders, hslots]
    obtain ⟨x, hx, rfl⟩ := mem_map.mp hmem
    exact or_iff_left (h.mine (a := x.2) hx)
  refine ⟨op.stores id stored r, by simp [Tally.trackStore, hbook], ?_⟩
  by_cases hstill : id ∈ (Owner.track l.hand (.store op) r).map fst
  · rw [if_pos (hmine.mpr hstill)] at hstep
    refine .inl ⟨⟨?_, fun id' stored' hbook' => ?_⟩, hstep⟩
    · simp [Tally.trackStore, hbook, hstill, hl.open_]
    · simp only [Tally.trackStore, hbook] at hbook' ⊢
      cases hbook'
      exact hstill
  · rw [if_neg fun hid => hstill (hmine.mp hid)] at hstep
    exact .inr ⟨_, by simp only [Tally.trackStore, hbook, if_neg hstill], hstep⟩

/-- One question of the worker. -/
theorem right_step (h : Exclusive w (before ++ l.hand :: after)) (hright : l.Right w id)
    (hallow : tally.Allows l q) (hanswer : w.Answers F X q r w') : (l.track q r).Right w' id := by
  obtain ⟨hopen, howner, hkeeps⟩ := hallow
  obtain ⟨stored, hbook, ⟨hl, hstored⟩ | ⟨o, hleft, -⟩⟩ := hright
  swap
  · rw [hopen] at hleft
    cases hleft
  cases q with
  | store op => exact right_store h hl howner hanswer.1 hanswer.2 hbook hstored
  | send ch msg =>
    change SendReply at r
    cases r with
    | sent =>
      obtain ⟨-, rfl⟩ := hanswer
      refine ⟨stored, hbook, .inl ⟨⟨hl.open_, fun id' stored' hbook' => ?_⟩, hstored⟩⟩
      obtain ⟨x, hx, hid⟩ := mem_map.mp (hl.own id' stored' hbook')
      refine mem_map.mpr ⟨x, mem_without.mpr ⟨hx, fun hsame => hkeeps ?_⟩, hid⟩
      rw [show l.book = some (id', stored') from hbook', ← hsame, hid]
      rfl
    | full => obtain rfl := hanswer; exact ⟨stored, hbook, .inl ⟨hl, hstored⟩⟩
    | shutdown => obtain rfl := hanswer; exact ⟨stored, hbook, .inl ⟨hl, hstored⟩⟩
  | get => obtain ⟨-, rfl⟩ := hanswer; exact ⟨stored, hbook, .inl ⟨hl, hstored⟩⟩
  | listByStatus => obtain ⟨-, rfl⟩ := hanswer; exact ⟨stored, hbook, .inl ⟨hl, hstored⟩⟩
  | wait tier =>
    obtain rfl := hanswer
    change Option String at r
    cases r <;> exact ⟨stored, hbook, .inl ⟨⟨hl.open_, hl.own⟩, hstored⟩⟩
  | acquire domain =>
    obtain rfl := hanswer
    change Bool at r
    cases r <;> exact ⟨stored, hbook, .inl ⟨⟨hl.open_, hl.own⟩, hstored⟩⟩
  | _ =>
    obtain rfl := hanswer
    exact ⟨stored, hbook, .inl ⟨⟨hl.open_, hl.own⟩, hstored⟩⟩

/-- Recipients only leave the tally, and from the front of those to come. -/
theorem tally_sublist (l : Tally) (q : QueueQuery) (r : q.Reply) :
    ((l.track q r).kept ++ (l.track q r).rest).Sublist (l.kept ++ l.rest) := by
  have hhead : l.kept ++ l.rest.take 1 ++ l.rest.tail = l.kept ++ l.rest := by
    rw [append_assoc]
    cases l.rest <;> rfl
  cases q with
  | store op =>
    show ((l.trackStore op r).kept ++ (l.trackStore op r).rest).Sublist _
    unfold Tally.trackStore
    cases l.book <;> exact .refl _
  | send ch msg => change SendReply at r; cases r <;> exact .refl _
  | wait tier => change Option String at r; cases r <;> exact .refl _
  | acquire domain =>
    change Bool at r
    cases r with
    | true => exact .refl _
    | false => exact hhead ▸ .refl _
  | endAttempt id rcpt err =>
    cases err with
    | none => exact (Sublist.refl _).append (tail_sublist _)
    | some err => exact hhead ▸ .refl _
  | _ => exact .refl _

/-- What is left to do is in the book: at a checkpoint it is the book. -/
theorem book_sublist {stored' : List String} (hallow : tally.Allows l q)
    (hbook : l.book = some (id, stored)) (hbook' : (l.track q r).book = some (id, stored'))
    (hsub : (l.kept ++ l.rest).Sublist stored) :
    ((l.track q r).kept ++ (l.track q r).rest).Sublist stored' := by
  have hsame : stored' = stored → ((l.track q r).kept ++ (l.track q r).rest).Sublist stored' := by
    rintro rfl
    exact (tally_sublist l q r).trans hsub
  cases q with
  | store op =>
    change (l.trackStore op r).book = _ at hbook'
    simp only [Tally.trackStore, hbook, some.injEq, mk.injEq, true_and] at hbook'
    cases op with
    | updateRecipients id' recipients =>
      obtain ⟨-, -, hown, rfl⟩ := hallow
      rw [hbook] at hown
      cases hown
      refine (tally_sublist l _ r).trans ?_
      change Except String Answer at r
      cases r with
      | error err => exact hbook' ▸ hsub
      | ok x =>
        rw [← hbook', show Op.stores (.updateRecipients id (l.kept ++ l.rest)) id stored
          (.ok x) = l.kept ++ l.rest from if_pos rfl]
    | _ => exact hsame hbook'.symm
  | send ch msg =>
    change SendReply at r
    cases r <;> exact hsame (congrArg snd (some.inj (hbook'.symm.trans hbook)))
  | wait tier =>
    change Option String at r
    cases r <;> exact hsame (congrArg snd (some.inj (hbook'.symm.trans hbook)))
  | acquire domain =>
    change Bool at r
    cases r <;> exact hsame (congrArg snd (some.inj (hbook'.symm.trans hbook)))
  | _ => exact hsame (congrArg snd (some.inj (hbook'.symm.trans hbook)))

end Book

/-! ### Everything else in the index -/

section Index

variable {w w' : World α} {ls : List (List Holding)} {l : List Holding}
  {r : Except String Answer}

variable {op : Op} {s s' : MessageStore α}

/-- A store call other than a checkpoint keeps recipients and children. -/
theorem evolves_store (h : Tidy w.store.index) (hallow : Owner.Allows l (.store op))
    (hcall : w.store.Calls F X op r w'.store) (hop : ∀ id rs, op ≠ .updateRecipients id rs) :
    Evolves w.store.index w'.store.index := by
  cases op with
  | transition id fromStatus toStatus =>
    have hto : toStatus ≠ "deleted" := by
      rcases hallow with ⟨-, rfl⟩ | ⟨-, -, rfl | rfl⟩ <;> decide
    rcases transition_effect hto hcall with
      ⟨e, v, he, -, -, hrevise, -, haddrs, -, hindex⟩ | ⟨-, hindex, -⟩
    · rw [hindex]
      refine (Evolves.refl _).update fun e' he' => ?_
      cases he'
      exact .inl ⟨e, he, hrevise.messageID, haddrs, hrevise.transaction⟩
    · rw [hindex]
      exact .refl _
  | updateStatus id status errorMsg =>
    rcases updateStatus_effect hcall with
      ⟨e, v, he, -, hrevise, -, haddrs, -, hindex⟩ | ⟨-, hindex, -⟩
    · rw [hindex]
      refine (Evolves.refl _).update fun e' he' => ?_
      split at he'
      · cases he'
      · cases he'
        exact .inl ⟨e, he, hrevise.messageID, haddrs, hrevise.transaction⟩
    · rw [hindex]
      exact .refl _
  | updateRecipients id recipients => exact absurd rfl (hop id recipients)
  | storeWithReceipt e receipts =>
    exact (storeWithReceipt_passive h hallow.1 hallow.2 hcall).evolves
  | storeNotification source key child =>
    exact (storeNotification_passive h hallow.2.2.1 hallow.2.1 hallow.2.2.2 hcall).evolves
  | finishScheduled receiptID user cancel now => exact (finishScheduled_passive h hcall).evolves
  | releaseHeld id actor => exact (releaseHeld_passive h hcall).evolves
  | releaseCompliance id actor reason child =>
    exact (releaseCompliance_passive h hallow hcall).evolves
  | _ => exact hallow.elim

/-- No entry has children. -/
def Flat (index : String → Option JournalEntry) : Prop :=
  ∀ id e, index id = some e → e.transaction = []

theorem Evolves.flat {index index' : String → Option JournalEntry} (h : Evolves index index')
    (hflat : Flat index) : Flat index' := by
  intro id e' he'
  rcases h id e' he' with ⟨e, he, hkin⟩ | ⟨-, htransaction⟩
  · exact hkin.transaction.trans (hflat id e he)
  · exact htransaction

theorem flat_store (h : Tidy w.store.index) (hflat : Flat w.store.index)
    (hallow : Owner.Allows l (.store op)) (hcall : w.store.Calls F X op r w'.store) :
    Flat w'.store.index := by
  by_cases hop : ∃ id rs, op = .updateRecipients id rs
  · obtain ⟨id, rs, rfl⟩ := hop
    rcases updateRecipients_effect hcall with
      ⟨e, v, he, -, hrevise, -, -, -, hindex⟩ | ⟨-, hindex, -⟩
    · intro k e' he'
      rw [hindex] at he'
      by_cases hk : k = id
      · subst hk
        rw [update_self] at he'
        cases he'
        exact hrevise.transaction.trans (hflat k e he)
      · rw [update_of_ne hk] at he'
        exact hflat k e' he'
    · rwa [hindex]
  · exact (evolves_store h hallow hcall fun id rs hop' => hop ⟨id, rs, hop'⟩).flat hflat

theorem keeps_of_plain {e : JournalEntry} (h : Plain e) : Keeps e.status := by
  have hstatus := h.status
  simp only [mem_cons, not_mem_nil, or_false, not_or] at hstatus
  exact ⟨not_or.mpr ⟨hstatus.1, hstatus.2.1⟩, hstatus.2.2.1⟩

variable {l : Tally}

/-- The store calls of a worker are admissible. -/
theorem admissible_store (hallow : tally.Allows l (.store op)) (hbook : l.book ≠ none)
    (hflat : Flat s.index) (env : Env) : op.Admissible X env s := by
  obtain ⟨-, howner, hkeeps⟩ := hallow
  cases op with
  | transition id fromStatus toStatus =>
    rcases howner with ⟨-, rfl⟩ | ⟨-, -, rfl | rfl⟩ <;> exact ⟨by decide, by decide⟩
  | updateStatus id status errorMsg =>
    show status ≠ "transaction"
    rcases howner with ⟨rfl, -⟩ | ⟨-, hstatus⟩
    · decide
    · rintro rfl
      exact absurd hstatus (by decide)
  | storeWithReceipt e receipts =>
    refine ⟨keeps_of_plain (plain_withDefaults howner.1 env), fun receipt hreceipt => ?_⟩
    have hplain := howner.2 receipt hreceipt
    exact ⟨keeps_of_plain hplain, hplain.transaction, howner.1.transaction⟩
  | storeNotification source key child =>
    obtain ⟨hid, htransaction, -, hstatus⟩ := howner
    refine ⟨hid, ?_, ?_, htransaction, fun parent hparent => hflat _ _ hparent⟩
    · rcases hstatus with h | h <;> rw [h] <;> decide
    · rcases hstatus with h | h <;> rw [h] <;> decide
  | finishScheduled => exact absurd hkeeps hbook
  | releaseHeld => exact absurd hkeeps hbook
  | releaseCompliance => exact absurd hkeeps hbook
  | updateRecipients => trivial
  | _ => exact howner.elim

/-- A plan that only writes to the journal, if anything. -/
def Plan.Writes : Plan → Prop
  | .sync => False
  | .close => False
  | .limit _ => False
  | _ => True

theorem writes_store (hallow : tally.Allows l (.store op)) (hbook : l.book ≠ none)
    (env : Env) (s : MessageStore α) : (op.plan X env s).Writes := by
  obtain ⟨-, howner, hkeeps⟩ := hallow
  cases op with
  | transition id fromStatus toStatus =>
    show (transition env s id fromStatus toStatus).Writes
    unfold transition
    repeat' split
    all_goals trivial
  | updateStatus id status errorMsg =>
    show (updateStatus env s id status errorMsg).Writes
    unfold updateStatus
    dsimp only
    repeat' split
    all_goals trivial
  | updateRecipients id recipients =>
    show (updateRecipients s id recipients).Writes
    unfold updateRecipients
    dsimp only
    repeat' split
    all_goals trivial
  | storeWithReceipt e receipts =>
    show (storeWithReceipt env s e receipts).Writes
    unfold storeWithReceipt
    dsimp only
    repeat' split
    all_goals trivial
  | storeNotification source key child =>
    show (storeNotification env s source key child).Writes
    unfold storeNotification
    dsimp only
    repeat' split
    all_goals trivial
  | finishScheduled => exact absurd hkeeps hbook
  | releaseHeld => exact absurd hkeeps hbook
  | releaseCompliance => exact absurd hkeeps hbook
  | _ => exact howner.elim

/-- A call that was refused has left no trace: what is journalled succeeds. -/
theorem refused_eq {plan : Plan} {env : Env} {err : String} (hwrites : plan.Writes)
    (hj : plan.Journalled F env s) (h : s.exec F env plan = (.error err, s')) : s' = s := by
  cases plan with
  | reject err' =>
    cases h
    rfl
  | answer x => cases h
  | write e context publish x => exact absurd (exec_write hj h).1 (by simp)
  | batch es context publish x => exact absurd (exec_batch hj h).1 (by simp)
  | _ => exact hwrites.elim

/-- The store calls of a worker keep journal and index in step. -/
theorem calls_mirrors (hallow : tally.Allows l (.store op)) (hbook : l.book ≠ none)
    (hflat : Flat s.index) (h : Mirrors F [] s) (hcall : s.Calls F X op r s') :
    Mirrors F [] s' := by
  obtain ⟨env, hj, hcall⟩ := hcall
  cases r with
  | ok x =>
    have hadm : op.Admissible X env s := admissible_store hallow hbook hflat env
    obtain ⟨gone, hsub, -, hm⟩ := exec_mirrors h (Op.plan_faithful h.live hadm) hcall
    rwa [subset_nil.mp hsub] at hm
  | error err => rwa [refused_eq (writes_store hallow hbook env s) hj hcall]

end Index

/-! ### One processing attempt -/

/-- A worker alone: the world answers, and nobody enters. -/
def soloDynamics (F : JournalFormat α) (X : Externals) :
    Dynamics queueSignature (World α) Tally where
  answer := World.Answers F X
  enter _ _ _ _ := False

/-- What holds while a worker processes its message, with messages of others in
the hands of `others`. -/
structure Conserved (F : JournalFormat α) (msg : Message) (others : List (List Holding))
    (w : World α) (l : Tally) : Prop where
  exclusive : Exclusive w (l.hand :: others)
  mirrors : Mirrors F [] w.store
  flat : Flat w.store.index
  ordered : (l.kept ++ l.rest).Sublist msg.toAddrs
  right : l.Right w msg.id
  covered : ∀ stored, l.book = some (msg.id, stored) → (l.kept ++ l.rest).Sublist stored

theorem conserved_step {msg : Message} {others : List (List Holding)} {w' : World α} {l : Tally}
    {q : QueueQuery} {r : q.Reply} (h : Conserved F msg others w l) (hallow : tally.Allows l q)
    (hanswer : w.Answers F X q r w') :
    Owner.Offers l.hand q r ∧ Conserved F msg others w' (l.track q r) := by
  obtain ⟨stored, hbook, -⟩ := h.right
  have halone : Exclusive w ([] ++ l.hand :: others) := h.exclusive
  obtain ⟨hoffer, hexclusive⟩ := exclusive_answers halone hallow.2.1 hanswer
  rw [← track_hand] at hexclusive
  have hstore : Mirrors F [] w'.store ∧ Flat w'.store.index := by
    by_cases hq : ∃ op, q = .store op
    · obtain ⟨op, rfl⟩ := hq
      have hne : l.book ≠ none := by
        rw [hbook]
        exact some_ne_none _
      exact ⟨calls_mirrors hallow hne h.flat h.mirrors hanswer.1,
        flat_store h.exclusive.tidy h.flat hallow.2.1 hanswer.1⟩
    · rw [hanswer.store_eq fun op hop => hq ⟨op, hop⟩]
      exact ⟨h.mirrors, h.flat⟩
  refine ⟨hoffer, hexclusive, hstore.1, hstore.2, (tally_sublist l q r).trans h.ordered, ?_, ?_⟩
  · exact right_step halone h.right hallow hanswer
  · exact fun stored' hbook' => book_sublist hallow hbook hbook' (h.covered stored hbook)

theorem alone_of_eq_singleton {β : Type} {before after : List β} {x y : β}
    (h : before ++ x :: after = [y]) : before = [] ∧ after = [] := by
  rcases append_eq_singleton_iff.mp h with ⟨rfl, hcons⟩ | ⟨-, hnil⟩
  · exact ⟨rfl, (cons.inj hcons).2⟩
  · cases hnil

theorem conserved_invariant (msg : Message) (others : List (List Holding)) :
    Invariant (soloDynamics F X) tally
      (fun w ls => ∀ l ∈ ls, ls = [l] ∧ Conserved F msg others w l) (Tally.Done msg) where
  act {w w' before after l q r} h hallow hanswer := by
    obtain ⟨hsingle, hconserved⟩ := h l (mem_append_right _ mem_cons_self)
    obtain ⟨rfl, rfl⟩ := alone_of_eq_singleton hsingle
    obtain ⟨hoffer, hnext⟩ := conserved_step hconserved hallow hanswer
    refine ⟨hoffer, fun l' hl' => ?_⟩
    obtain rfl := mem_singleton.mp hl'
    exact ⟨rfl, hnext⟩
  leave {w before after l} h _ l' hl' := by
    obtain ⟨hsingle, -⟩ := h l (mem_append_right _ mem_cons_self)
    obtain ⟨rfl, rfl⟩ := alone_of_eq_singleton hsingle
    cases hl'
  enter _ henter := henter.elim

/-- The recipients recovery finds. -/
theorem recovered_toAddrs (h : Mirrors F [] w.store) {d : Directory α}
    (hd : w.store.journal.Crash d) (id : String) :
    ∃ t, recover F d = .ok t ∧ (t.index id).map JournalEntry.toAddrs = storedFor w id := by
  obtain ⟨t, ht, hindex⟩ := h.rebuilds.recover_crash hd
  refine ⟨t, ht, ?_⟩
  rw [hindex, storedFor, dropAll_nil, requeued, mapValues, Option.map_map]
  congr 1
  funext e
  show (requeue e).toAddrs = e.toAddrs
  unfold requeue
  split <;> rfl

/-- **Recipients are conserved in one processing attempt.**  A worker processes a
message that no custody rule takes over, with the recipients stored for it.  At
every point, also after a crash, the stored list contains the recipients that
errored, were throttled or are still to come, which are a sublist of the
recipients in order.  When the worker is done, the stored list is exactly
that, and the message is removed just if nobody is left and the worker got
past the pause of the sender and the limiter. -/
theorem recipients_conserved {msg : Message} {others : List (List Holding)} {w₀ w : World α}
    {l : Tally} {p : Queue Unit} (hcustody : qm.inCustody msg = false)
    (hexclusive : Exclusive w₀ ([(msg.id, "queued")] :: others))
    (hstored : storedFor w₀ msg.id = some msg.toAddrs) (hmirrors : Mirrors F [] w₀.store)
    (hflat : Flat w₀.store.index)
    (hrun : Reaches (soloDynamics F X) tally ⟨w₀, [⟨.start msg, qm.processMessage msg⟩]⟩
      ⟨w, [⟨l, p⟩]⟩) :
    (l.kept ++ l.rest).Sublist msg.toAddrs ∧
    (∀ d, w.store.journal.Crash d → ∃ t, recover F d = .ok t ∧
      (t.index msg.id).map JournalEntry.toAddrs = storedFor w msg.id) ∧
    (∀ q k, p = .ask q k → ∃ stored, storedFor w msg.id = some stored ∧
      (l.kept ++ l.rest).Sublist stored) ∧
    (p = .done () →
      (storedFor w msg.id = none ↔ l.kept ++ l.rest = [] ∧ l.entered = true) ∧
      ∀ stored, storedFor w msg.id = some stored → stored = l.kept ++ l.rest) := by
  have hsieve : hasPrefix msg.id "sieve-" = false :=
    hexclusive.tidy.not_sieve_of_busy (.inl rfl)
      (hexclusive.held _ mem_cons_self _ mem_cons_self).2
  have hstart : Conserved F msg others w₀ (.start msg) := by
    refine ⟨hexclusive, hmirrors, hflat, .refl _, ⟨_, rfl, .inl ⟨?_, hstored⟩⟩, ?_⟩
    · exact steady_working
    · rintro _ ⟨rfl⟩
      exact .refl _
  have hsafe := (conserved_invariant msg others).reaches
    (P := ⟨w₀, [⟨.start msg, qm.processMessage msg⟩]⟩) ⟨?_, ?_⟩ hrun
  rotate_left
  · intro l hl
    obtain rfl := mem_singleton.mp hl
    exact ⟨rfl, hstart⟩
  · intro t ht
    obtain rfl := mem_singleton.mp ht
    exact processMessage_tally hsieve hcustody
  have h : Conserved F msg others w l := (hsafe.inv l mem_cons_self).2
  obtain ⟨stored, hbook, hcase⟩ := h.right
  refine ⟨h.ordered, fun d hd => recovered_toAddrs h.mirrors hd msg.id, ?_, ?_⟩
  · rintro q k rfl
    have hopen : l.left = none := (hsafe.allows mem_cons_self).1
    rcases hcase with ⟨-, hstored⟩ | ⟨o, hleft, -⟩
    · exact ⟨stored, hstored, h.covered stored hbook⟩
    · rw [hopen] at hleft
      cases hleft
  · rintro rfl
    obtain ⟨stored', kept, rest, entered, left, rfl, hremoved, hleft⟩ :
        l.Done msg := hsafe.spec ⟨l, .done ()⟩ mem_cons_self
    rcases hcase with ⟨hsteady, -⟩ | ⟨o, ho, hstored⟩
    · cases hsteady.open_
    · cases ho
      rw [hstored]
      exact ⟨hremoved, hleft⟩

/-! ### Three attempts -/

def soloOracle (F : JournalFormat α) (X : Externals) (replies : (q : QueueQuery) → q.Reply) :
    Oracle (soloDynamics F X) where
  answer := calmAnswer F X replies
  sound := calmAnswer_sound

/-- A worker has processed a message of the given store. -/
def attempted (qm : QueueManager) (replies : (q : QueueQuery) → q.Reply)
    (s : MessageStore JournalEntry) (msg : Message) (n : ℕ) :
    Pool queueSignature (World JournalEntry) Tally :=
  Pool.advance (soloOracle recordFormat bareExternals replies) tally 0 n
    ⟨⟨s, fun _ => []⟩, [⟨.start msg, qm.processMessage msg⟩]⟩

theorem reaches_attempted (qm : QueueManager) (replies : (q : QueueQuery) → q.Reply)
    (s : MessageStore JournalEntry) (msg : Message) (n : ℕ) :
    Reaches (soloDynamics recordFormat bareExternals) tally
      ⟨⟨s, fun _ => []⟩, [⟨.start msg, qm.processMessage msg⟩]⟩ (attempted qm replies s msg n) :=
  reaches_advance _ 0 n _

/-- The message in the store after acceptance and queueing. -/
def queuedMessage : Message := { id := "m1", fromAddr := "a@x", toAddrs := ["b@y"] }

/-- A manager with a rule that holds what goes to one domain. -/
def holdingManager : QueueManager :=
  { bareManager with rules := [{ name := "hold", domain := "y", scope := .recipient, mode := .hold }] }

/-- A manager with mailstorm protection. -/
def guardedManager : QueueManager := { bareManager with stormGuard := true }

/-- The sender is paused. -/
def pausedSender : (q : QueueQuery) → q.Reply
  | .blocked _ => true
  | q => noDomains q

/-- The store after a checkpoint that leaves nobody, before the message is
removed. -/
def emptiedStore : MessageStore JournalEntry :=
  (queuedStore.call recordFormat bareExternals (calmEnv []) (.updateRecipients "m1" [])).2

/-- A manager that delivers one domain to mailboxes. -/
def mailboxManager : QueueManager := { bareManager with localDomains := ["y"] }

/-- A held message is removed although its recipients were not attempted, and a
message without recipients stays if its sender is paused. -/
theorem removed_with_recipients :
    (∃ w l, Reaches (soloDynamics recordFormat bareExternals) tally
        ⟨⟨queuedStore, fun _ => []⟩,
          [⟨.start queuedMessage, holdingManager.processMessage queuedMessage⟩]⟩
        ⟨w, [⟨l, .done ()⟩]⟩ ∧
      l.kept ++ l.rest = ["b@y"] ∧ storedFor w "m1" = none) ∧
    (∃ w l, Reaches (soloDynamics recordFormat bareExternals) tally
        ⟨⟨emptiedStore, fun _ => []⟩, [⟨.start { queuedMessage with toAddrs := [] },
          guardedManager.processMessage { queuedMessage with toAddrs := [] }⟩]⟩
        ⟨w, [⟨l, .done ()⟩]⟩ ∧
      l.kept ++ l.rest = [] ∧ storedFor w "m1" = some []) :=
  ⟨⟨_, _, reaches_attempted holdingManager noDomains queuedStore queuedMessage 8, rfl, rfl⟩,
    ⟨_, _, reaches_attempted guardedManager pausedSender emptiedStore
      { queuedMessage with toAddrs := [] } 8, rfl, rfl⟩⟩

/-- The one entry of the index. -/
theorem queuedStore_index {e : JournalEntry} (he : queuedStore.index id = some e) :
    id = "m1" ∧ e.messageID = "m1" ∧ e.status = "queued" ∧ e.transaction = [] := by
  by_cases hid : id = "m1"
  · subst hid
    cases he
    exact ⟨rfl, rfl, rfl, rfl⟩
  · rw [show queuedStore.index = update (update (fun _ => none) "m1" _) "m1" _
      from rfl, update_of_ne hid, update_of_ne hid] at he
    cases he

theorem queuedStore_exclusive :
    Exclusive (⟨queuedStore, fun _ => []⟩ : World JournalEntry) ([[("m1", "queued")]] ++ []) := by
  refine ⟨⟨fun id e he => ?_, fun id e he hsieve => ?_⟩, by decide, fun id hid => ?_,
    fun l hl x hx => ?_, fun id e he _ => ?_⟩
  · obtain ⟨rfl, hid, -⟩ := queuedStore_index he
    exact hid
  · obtain ⟨rfl, -⟩ := queuedStore_index he
    exact absurd hsieve (by decide)
  · cases hid
  · obtain rfl := mem_singleton.mp hl
    obtain rfl := mem_singleton.mp hx
    exact ⟨.inl rfl, _, rfl, rfl, by decide⟩
  · obtain ⟨rfl, -⟩ := queuedStore_index he
    decide

/-- The mailbox refuses: the recipient stays in the store. -/
theorem recipients_conserved_refused :
    ∃ w l, Reaches (soloDynamics recordFormat bareExternals) tally
        ⟨⟨queuedStore, fun _ => []⟩,
          [⟨.start queuedMessage, mailboxManager.processMessage queuedMessage⟩]⟩
        ⟨w, [⟨l, .done ()⟩]⟩ ∧
      storedFor w "m1" = some ["b@y"] ∧ ["b@y"] = l.kept ++ l.rest := by
  have hrun := reaches_attempted mailboxManager noDomains queuedStore queuedMessage 12
  have hflat : Flat queuedStore.index := fun _ _ he => (queuedStore_index he).2.2.2
  exact ⟨_, _, hrun, rfl, ((recipients_conserved rfl queuedStore_exclusive rfl
    queuedStore_run.mirrors hflat hrun).2.2.2 rfl).2 _ rfl⟩

end EmailService
