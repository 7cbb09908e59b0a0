/-
EmailService/Completed.lean

Recipients a checkpoint has taken off the list of a message.

`Checked` is the world with a record of them.  A worker attempts the recipients
its copy of the message carries, so a completed recipient is attempted again
just if a copy is older than the last checkpoint.  If every message that is put
on a channel carries the recipients stored for it at that moment, this does not
happen, whatever the interleaving (`completed_not_attempted`).

Nothing in the code sees to that.  The scheduler takes its copies from a
snapshot of the pending entries, and the transition it makes later compares the
status only: meanwhile the message may have been delivered to some of its
recipients and be pending again (`completed_attempted_again`).
-/
import EmailService.Conservation

namespace EmailService

open GoStrings Program Threads List Function

variable {α : Type} {F : JournalFormat α} {X : Externals} {qm : QueueManager}

/-! ### Checkpoints -/

structure Checked (α : Type) where
  world : World α
  /-- for each message the recipients taken off its list -/
  completed : String → List String

/-- A store call completes the recipients it takes off the list of a message
that is there, and a message that is new has none completed. -/
def completedBy (w w' : World α) (op : Op) (r : Except String Answer)
    (completed : String → List String) (id : String) : List String :=
  match w.store.index id with
  | some e => completed id ++ e.toAddrs.filter (· ∉ op.stores id e.toAddrs r)
  | none => if (w'.store.index id).isSome then [] else completed id

def completedAfter (w w' : World α) (completed : String → List String) :
    (q : QueueQuery) → q.Reply → String → List String
  | .store op, r => completedBy w w' op r completed
  | _, _ => completed

def Checked.Answers (F : JournalFormat α) (X : Externals) (c : Checked α) (q : QueueQuery)
    (r : q.Reply) (c' : Checked α) : Prop :=
  c.world.Answers F X q r c'.world ∧
    c'.completed = completedAfter c.world c'.world c.completed q r

/-- What is put on a channel carries the recipients stored for it. -/
def UpToDate (w : World α) : (q : QueueQuery) → q.Reply → Prop
  | .send _ msg, .sent => storedFor w msg.id = some msg.toAddrs
  | _, _ => True

/-- The parties of the queue, with a condition on each answer. -/
def checkedDynamics (F : JournalFormat α) (X : Externals) (qm : QueueManager)
    (Condition : World α → (q : QueueQuery) → q.Reply → Prop) :
    Dynamics queueSignature (Checked α) Tally where
  answer c q r c' := c.Answers F X q r c' ∧ Condition c.world q r
  enter c p l c' := Enters qm c.world p l c'.world ∧ c'.completed = c.completed

/-! ### Copies in step with the store -/

/-- Every copy carries what is stored, and nobody completed is stored. -/
structure InStep (c : Checked α) (ls : List Tally) : Prop where
  exclusive : Exclusive c.world (ls.map Tally.hand)
  right : ∀ l ∈ ls, ∀ id stored, l.book = some (id, stored) → l.left = none →
    l.Steady ∧ storedFor c.world id = some stored
  covered : ∀ l ∈ ls, ∀ id stored, l.book = some (id, stored) →
    (l.kept ++ l.rest).Sublist stored
  slots : ∀ ch, ∀ msg ∈ c.world.slots ch, storedFor c.world msg.id = some msg.toAddrs
  completed : ∀ id stored, storedFor c.world id = some stored →
    ∀ rcpt ∈ stored, rcpt ∉ c.completed id

/-- The part of it that does not concern the record. -/
structure Abreast (w : World α) (ls : List Tally) : Prop where
  exclusive : Exclusive w (ls.map Tally.hand)
  right : ∀ l ∈ ls, ∀ id stored, l.book = some (id, stored) → l.left = none →
    l.Steady ∧ storedFor w id = some stored
  covered : ∀ l ∈ ls, ∀ id stored, l.book = some (id, stored) →
    (l.kept ++ l.rest).Sublist stored
  slots : ∀ ch, ∀ msg ∈ w.slots ch, storedFor w msg.id = some msg.toAddrs

variable {c : Checked α} {ls : List Tally} {w : World α} {q : QueueQuery} {r : q.Reply}

theorem InStep.abreast (h : InStep c ls) : Abreast c.world ls :=
  ⟨h.exclusive, h.right, h.covered, h.slots⟩

theorem Abreast.inStep (h : Abreast c.world ls)
    (hcompleted : ∀ id stored, storedFor c.world id = some stored → ∀ rcpt ∈ stored,
      rcpt ∉ c.completed id) : InStep c ls :=
  ⟨h.exclusive, h.right, h.covered, h.slots, hcompleted⟩

theorem abreast_atRest (h : w.AtRest) : Abreast w [] := by
  refine ⟨exclusive_atRest h, fun _ hl => (nomatch hl), fun _ hl => (nomatch hl),
    fun ch msg hmsg => ?_⟩
  rw [h.slots ch] at hmsg
  cases hmsg

section Steps

variable {c c' : Checked α} {before after : List Tally} {l : Tally}
  {op : Op} {q : QueueQuery} {r : q.Reply} {w w' : World α} {id : String}
  {stored : List String} {slots : Channel → List Message} {ch : Channel} {msg : Message}

/-- A store call of one party leaves the recipients of what others hold. -/
theorem stored_of_others {r : Except String Answer} {before after : List (List Holding)}
    {l : List Holding} (h : Exclusive w (before ++ l :: after))
    (hallow : Owner.Allows l (.store op)) (hcall : w.store.Calls F X op r w'.store)
    (hslots : w'.slots = w.slots) (hid : id ∈ w.holders (before ++ after))
    (hstored : storedFor w id = some stored) : storedFor w' id = some stored := by
  have hheld : id ∈ w.holders (before ++ l :: after) := mem_holders_iff.mpr (.inr hid)
  have hstep := stored_store h hallow hcall hslots hheld hstored
  have hheld' : id ∈ w'.holders (before ++ Owner.track l (.store op) r :: after) := by
    refine mem_holders_iff.mpr (.inr ?_)
    rw [World.holders, hslots]
    exact hid
  rw [if_pos hheld'] at hstep
  rw [hstep]
  cases op with
  | updateRecipients id' recipients =>
    obtain ⟨a, hmem⟩ := hallow
    have hne : id' ≠ id := by
      rintro rfl
      exact h.mine hmem hid
    cases r with
    | error err => rfl
    | ok x => exact congrArg some (if_neg hne)
  | _ => rfl

/-- Recipients are completed just as they leave the list. -/
theorem completed_store {r : Except String Answer} {l : Tally} {completed : String → List String}
    (htidy : Tidy w.store.index) (hallow : tally.Allows l (.store op))
    (hcall : w.store.Calls F X op r w'.store)
    (hown : ∀ id stored, l.book = some (id, stored) → storedFor w id = some stored ∧
      (l.kept ++ l.rest).Sublist stored)
    (h : ∀ id stored, storedFor w id = some stored → ∀ rcpt ∈ stored, rcpt ∉ completed id) :
    ∀ id stored, storedFor w' id = some stored →
      ∀ rcpt ∈ stored, rcpt ∉ completedBy w w' op r completed id := by
  intro id stored' hstored' rcpt hrcpt
  obtain ⟨e', he', rfl⟩ := storedFor_eq_some.mp hstored'
  have hcheck : ∀ {e}, w.store.index id = some e → e'.toAddrs = op.stores id e.toAddrs r →
      e'.toAddrs ⊆ e.toAddrs → rcpt ∉ completedBy w w' op r completed id := by
    intro e he haddrs hsub hmem
    simp only [completedBy, he, mem_append, mem_filter, decide_eq_true_eq] at hmem
    rcases hmem with hmem | ⟨-, hnot⟩
    · exact h id e.toAddrs (storedFor_eq_some.mpr ⟨e, he, rfl⟩) rcpt (hsub hrcpt) hmem
    · exact hnot (haddrs ▸ hrcpt)
  by_cases hop : ∃ id' rs, op = .updateRecipients id' rs
  · obtain ⟨id', rs, rfl⟩ := hop
    rcases updateRecipients_effect hcall with
      ⟨e₁, v, he₁, -, -, -, haddrs, rfl, hindex⟩ | ⟨⟨err, rfl⟩, hindex, -⟩
    · by_cases hid : id = id'
      · subst hid
        rw [hindex, update_self] at he'
        cases he'
        refine hcheck he₁ (haddrs.trans (if_pos rfl).symm) ?_
        -- what a checkpoint stores was stored before
        obtain ⟨-, -, hmine, rfl⟩ := hallow
        obtain ⟨⟨own, stored⟩, hbook, rfl⟩ := Option.map_eq_some_iff.mp hmine
        obtain ⟨hstored, hsub⟩ := hown own stored hbook
        obtain ⟨e₂, he₂, rfl⟩ := storedFor_eq_some.mp hstored
        rw [show w.store.index own = some e₁ from he₁] at he₂
        cases he₂
        rw [haddrs]
        exact hsub.subset
      · rw [hindex, update_of_ne hid] at he'
        exact hcheck he' (if_neg (Ne.symm hid)).symm (Subset.refl _)
    · rw [hindex] at he'
      exact hcheck he' rfl (.refl _)
  · have hnot : ∀ id rs, op ≠ .updateRecipients id rs := fun id rs h => hop ⟨id, rs, h⟩
    rcases evolves_store htidy hallow.2.1 hcall hnot id e' he' with ⟨e, he, hkin⟩ | ⟨hnone, -⟩
    · have hstores : op.stores id e.toAddrs r = e.toAddrs := by
        cases op with
        | updateRecipients id' rs => exact absurd rfl (hnot id' rs)
        | _ => rfl
      exact hcheck he (hkin.toAddrs.trans hstores.symm) (hkin.toAddrs ▸ .refl _)
    · simp only [completedBy, hnone, he', Option.isSome_some, if_true]
      exact not_mem_nil

theorem mem_slotIDs_of_mem (h : msg ∈ slots ch) : msg.id ∈ slotIDs slots :=
  mem_map.mpr ⟨msg, mem_flatMap.mpr ⟨ch, by cases ch <;> decide, h⟩, rfl⟩

/-- What other parties hold is not touched. -/
theorem stored_frame {before after : List (List Holding)} {l : List Holding}
    (h : Exclusive w (before ++ l :: after)) (hallow : Owner.Allows l q)
    (hanswer : w.Answers F X q r w') (hid : id ∈ w.holders (before ++ after))
    (hstored : storedFor w id = some stored) : storedFor w' id = some stored := by
  by_cases hq : ∃ op, q = .store op
  · obtain ⟨op, rfl⟩ := hq
    exact stored_of_others h hallow hanswer.1 hanswer.2 hid hstored
  · rw [storedFor, hanswer.store_eq fun op hop => hq ⟨op, hop⟩]
    exact hstored

/-- The messages in the slots, if those sent are up to date. -/
theorem slots_step {before after : List (List Holding)} {l : List Holding}
    (h : Exclusive w (before ++ l :: after)) (hallow : Owner.Allows l q)
    (hanswer : w.Answers F X q r w') (hfresh : UpToDate w q r)
    (hslots : ∀ ch, ∀ msg ∈ w.slots ch, storedFor w msg.id = some msg.toAddrs) :
    ∀ ch, ∀ msg ∈ w'.slots ch, storedFor w' msg.id = some msg.toAddrs := by
  have hkeep : ∀ ch, ∀ msg ∈ w.slots ch, storedFor w' msg.id = some msg.toAddrs :=
    fun ch msg hmsg => stored_frame h hallow hanswer
      (mem_append_left _ (mem_slotIDs_of_mem hmsg)) (hslots ch msg hmsg)
  cases q with
  | store op => rw [hanswer.2]; exact hkeep
  | get => obtain ⟨-, rfl⟩ := hanswer; exact hslots
  | listByStatus => obtain ⟨-, rfl⟩ := hanswer; exact hslots
  | send ch msg =>
    change SendReply at r
    cases r with
    | full => obtain rfl := hanswer; exact hslots
    | shutdown => obtain rfl := hanswer; exact hslots
    | sent =>
      obtain ⟨-, rfl⟩ := hanswer
      intro ch' msg' hmsg'
      by_cases hch : ch' = ch
      · subst hch
        change msg' ∈ update w.slots ch' (w.slots ch' ++ [msg]) ch' at hmsg'
        rw [update_self] at hmsg'
        rcases mem_append.mp hmsg' with hmsg' | hmsg'
        · exact hslots ch' msg' hmsg'
        · obtain rfl := mem_singleton.mp hmsg'
          exact hfresh
      · change msg' ∈ update w.slots ch (w.slots ch ++ [msg]) ch' at hmsg'
        rw [update_of_ne hch] at hmsg'
        exact hslots ch' msg' hmsg'
  | _ => obtain rfl := hanswer; exact hslots

theorem mem_replaced {β : Type} {before after : List β} {x y z : β}
    (h : x ∈ before ++ y :: after) : x = y ∨ (x ∈ before ++ after ∧ x ∈ before ++ z :: after) := by
  rcases mem_append.mp h with h | h
  · exact .inr ⟨mem_append_left _ h, mem_append_left _ h⟩
  · rcases mem_cons.mp h with h | h
    · exact .inl h
    · exact .inr ⟨mem_append_right _ h,
        mem_append_right _ (mem_cons_of_mem _ h)⟩

/-- The record of completed recipients. -/
theorem completed_step (htidy : Tidy c.world.store.index) (hallow : tally.Allows l q)
    (hanswer : c.Answers F X q r c')
    (hown : ∀ id stored, l.book = some (id, stored) → storedFor c.world id = some stored ∧
      (l.kept ++ l.rest).Sublist stored)
    (h : ∀ id stored, storedFor c.world id = some stored → ∀ rcpt ∈ stored, rcpt ∉ c.completed id) :
    ∀ id stored, storedFor c'.world id = some stored →
      ∀ rcpt ∈ stored, rcpt ∉ c'.completed id := by
  obtain ⟨hworld, hcompleted⟩ := hanswer
  by_cases hq : ∃ op, q = .store op
  · obtain ⟨op, rfl⟩ := hq
    rw [hcompleted]
    exact completed_store htidy hallow hworld.1 hown h
  · have hsame : c'.completed = c.completed := by
      cases q with
      | store op => exact absurd ⟨op, rfl⟩ hq
      | _ => exact hcompleted
    intro id stored hstored
    rw [storedFor, hworld.store_eq fun op hop => hq ⟨op, hop⟩] at hstored
    rw [hsame]
    exact h id stored hstored

theorem map_hand (before after : List Tally) (l : Tally) :
    (before ++ l :: after).map Tally.hand =
      before.map Tally.hand ++ l.hand :: after.map Tally.hand := by
  rw [map_append, map_cons]

/-- The book of a party, before a question. -/
theorem book_before {stored' : List String} (hbook' : (l.track q r).book = some (id, stored')) :
    ∃ stored, l.book = some (id, stored) := by
  have hsame := track_book l q r
  rw [hbook'] at hsame
  obtain ⟨⟨id', stored⟩, hbook, hid⟩ := Option.map_eq_some_iff.mp hsame.symm
  obtain rfl : id' = id := hid
  exact ⟨stored, hbook⟩

/-- One question. -/
theorem abreast_act (h : Abreast w (before ++ l :: after)) (hallow : tally.Allows l q)
    (hanswer : w.Answers F X q r w') (hfresh : UpToDate w q r) :
    Owner.Offers l.hand q r ∧ Abreast w' (before ++ l.track q r :: after) := by
  have hl : l ∈ before ++ l :: after := mem_append_right _ mem_cons_self
  have hexcl : Exclusive w (before.map Tally.hand ++ l.hand :: after.map Tally.hand) :=
    map_hand before after l ▸ h.exclusive
  obtain ⟨hoffer, hexcl'⟩ := exclusive_answers hexcl hallow.2.1 hanswer
  rw [← track_hand] at hexcl'
  refine ⟨hoffer, map_hand before after _ ▸ hexcl', fun x hx id stored hbook hleft => ?_,
    fun x hx id stored hbook => ?_, slots_step hexcl hallow.2.1 hanswer hfresh h.slots⟩
  · rcases mem_replaced (z := l) hx with rfl | ⟨hother, hx⟩
    · obtain ⟨stored₀, hbook₀⟩ := book_before hbook
      have hright : l.Right w id :=
        ⟨stored₀, hbook₀, .inl (h.right l hl id stored₀ hbook₀ hallow.1)⟩
      obtain ⟨stored', hbook', hcase⟩ := right_step hexcl hright hallow hanswer
      rw [show (l.track q r).book = some (id, stored) from hbook] at hbook'
      cases hbook'
      rcases hcase with hcase | ⟨o, hleft', -⟩
      · exact hcase
      · rw [show (l.track q r).left = none from hleft] at hleft'
        cases hleft'
    · -- the message of another party is in its hand
      obtain ⟨hsteady, hstored⟩ := h.right x hx id stored hbook hleft
      refine ⟨hsteady, stored_frame hexcl hallow.2.1 hanswer ?_ hstored⟩
      obtain ⟨y, hy, hid⟩ := mem_map.mp (hsteady.own id stored hbook)
      refine mem_append_right _ (mem_map.mpr ⟨y, mem_flatten.mpr ⟨x.hand, ?_, hy⟩,
        hid⟩)
      rw [← map_append]
      exact mem_map.mpr ⟨x, hother, rfl⟩
  · rcases mem_replaced (z := l) hx with rfl | ⟨-, hx⟩
    · obtain ⟨stored₀, hbook₀⟩ := book_before hbook
      exact book_sublist hallow hbook₀ hbook (h.covered l hl id stored₀ hbook₀)
    · exact h.covered x hx id stored hbook

/-- A party with nothing in hand leaves. -/
theorem Abreast.leave (h : Abreast w (before ++ l :: after)) (hfree : l.hand = []) :
    Abreast w (before ++ after) := by
  have hsub : ∀ x ∈ before ++ after, x ∈ before ++ l :: after := by
    intro x hx
    rcases mem_append.mp hx with hx | hx
    · exact mem_append_left _ hx
    · exact mem_append_right _ (mem_cons_of_mem _ hx)
  refine ⟨?_, fun x hx => h.right x (hsub x hx), fun x hx => h.covered x (hsub x hx), h.slots⟩
  have hexcl := h.exclusive
  rw [map_hand, hfree] at hexcl
  rw [map_append]
  exact hexcl.leave

/-- The slots a worker leaves. -/
theorem mem_slots_of_received {ch' : Channel} {msg' : Message} {rest : List Message}
    (hslot : slots ch = msg :: rest) (h : msg' ∈ update slots ch rest ch') :
    msg' ∈ slots ch' := by
  by_cases hch : ch' = ch
  · subst hch
    rw [update_self] at h
    rw [hslot]
    exact mem_cons_of_mem _ h
  · rwa [update_of_ne hch] at h

theorem Abreast.enter {ls : List Tally} {p : Program queueSignature Unit} (h : Abreast w ls)
    (henter : Enters qm w p l w') : Abreast w' (l :: ls) := by
  have hexcl := h.exclusive.enter henter
  cases henter with
  | @worker ch msg rest hslot =>
    have hmsg : storedFor w msg.id = some msg.toAddrs := by
      refine h.slots ch msg ?_
      rw [hslot]
      exact mem_cons_self
    refine ⟨hexcl, fun x hx id stored hbook hleft => ?_, fun x hx id stored hbook => ?_,
      fun ch' msg' hmsg' => h.slots ch' msg' (mem_slots_of_received hslot hmsg')⟩
    · rcases mem_cons.mp hx with rfl | hx
      · cases hbook
        exact ⟨steady_working, hmsg⟩
      · exact h.right x hx id stored hbook hleft
    · rcases mem_cons.mp hx with rfl | hx
      · cases hbook
        exact .refl _
      · exact h.covered x hx id stored hbook
  | _ =>
    refine ⟨hexcl, fun x hx id stored hbook => ?_, fun x hx id stored hbook => ?_, h.slots⟩
    · rcases mem_cons.mp hx with rfl | hx
      · cases hbook
      · exact h.right x hx id stored hbook
    · rcases mem_cons.mp hx with rfl | hx
      · cases hbook
      · exact h.covered x hx id stored hbook

theorem inStep_act (h : InStep c (before ++ l :: after)) (hallow : tally.Allows l q)
    (hanswer : c.Answers F X q r c') (hfresh : UpToDate c.world q r) :
    Owner.Offers l.hand q r ∧ InStep c' (before ++ l.track q r :: after) := by
  have hl : l ∈ before ++ l :: after := mem_append_right _ mem_cons_self
  obtain ⟨hoffer, habreast⟩ := abreast_act h.abreast hallow hanswer.1 hfresh
  refine ⟨hoffer, habreast.inStep (completed_step h.exclusive.tidy hallow hanswer
    (fun id stored hbook => ?_) h.completed)⟩
  exact ⟨(h.right l hl id stored hbook hallow.1).2, h.covered l hl id stored hbook⟩

theorem inStep_invariant :
    Invariant (checkedDynamics F X qm UpToDate) tally InStep fun l => l.hand = [] where
  act h hallow hanswer := inStep_act h hallow hanswer.1 hanswer.2
  leave h hfree := (h.abreast.leave hfree).inStep h.completed
  enter {c c' ls p l} h henter := by
    obtain ⟨henter, hcompleted⟩ := henter
    refine ⟨(h.abreast.enter henter).inStep fun id stored hstored => ?_,
      henter.spec h.exclusive.slots_not_sieve⟩
    rw [storedFor, henter.store_eq] at hstored
    rw [hcompleted]
    exact h.completed id stored hstored

/-- **A completed recipient is not attempted again**, in every run of the parties
in which what is put on a channel carries the recipients stored for it. -/
theorem completed_not_attempted {w₀ : World α} (hrest : w₀.AtRest) {c : Checked α}
    {ts : List (Thread queueSignature Tally)}
    (hrun : Reaches (checkedDynamics F X qm UpToDate) tally ⟨⟨w₀, fun _ => []⟩, []⟩ ⟨c, ts⟩) :
    ∀ l id rcpt k, ⟨l, .ask (.beginAttempt id rcpt) k⟩ ∈ ts → rcpt ∉ c.completed id := by
  have hstart : InStep ⟨w₀, fun _ => []⟩ [] :=
    (abreast_atRest hrest).inStep fun _ _ _ _ _ => not_mem_nil
  have hsafe := inStep_invariant.reaches (P := ⟨⟨w₀, fun _ => []⟩, []⟩)
    ⟨hstart, fun t ht => by cases ht⟩ hrun
  intro l id rcpt k ht
  obtain ⟨hopen, -, hmine, hnext⟩ : tally.Allows l (.beginAttempt id rcpt) := hsafe.allows ht
  obtain ⟨⟨own, stored⟩, hbook, rfl⟩ := Option.map_eq_some_iff.mp hmine
  have hl : l ∈ ts.map Thread.ghost := mem_map.mpr ⟨_, ht, rfl⟩
  have hstored := (hsafe.inv.right l hl own stored hbook hopen).2
  refine hsafe.inv.completed own stored hstored rcpt ?_
  exact (hsafe.inv.covered l hl own stored hbook).subset
    (mem_append_right _ (mem_of_mem_head? hnext))

end Steps

/-! ### A stale copy -/

/-- A message to two mailboxes. -/
def twoMailboxes : Message := { id := "m1", fromAddr := "s@x", toAddrs := ["a@y", "b@y"] }

/-- The first mailbox takes the message, the second does not. -/
def oneMailbox : (q : QueueQuery) → q.Reply
  | .deliverOnce _ user _ _ _ =>
    (if user = "a@y" then .ok "uid" else .error "no mailbox" : Except String String)
  | .now => (5 : Time)
  | .sortByCreation [e] => ⟨[e], .refl _, pairwise_singleton _ _⟩
  | q => noDomains q

/-- `UpToDate`, as a test. -/
def upToDate (w : World α) : (q : QueueQuery) → q.Reply → Bool
  | .send _ msg, .sent => storedFor w msg.id = some msg.toAddrs
  | _, _ => true

theorem upToDate_sound (h : upToDate w q r = true) : UpToDate w q r := by
  cases q with
  | send ch msg =>
    change SendReply at r
    cases r with
    | sent =>
      show storedFor w msg.id = some msg.toAddrs
      exact of_decide_eq_true h
    | full => trivial
    | shutdown => trivial
  | _ => trivial

/-- The answers of a calm store that pass a test, with the record of completed
recipients. -/
def checkedAnswer (F : JournalFormat α) (X : Externals) (replies : (q : QueueQuery) → q.Reply)
    (test : World α → (q : QueueQuery) → q.Reply → Bool) (c : Checked α) (q : QueueQuery) :
    Option (q.Reply × Checked α) :=
  match calmAnswer F X replies c.world q with
  | some (r, w') =>
    if test c.world q r then some (r, ⟨w', completedAfter c.world w' c.completed q r⟩) else none
  | none => none

theorem checkedAnswer_sound {replies : (q : QueueQuery) → q.Reply}
    {test : World α → (q : QueueQuery) → q.Reply → Bool} {c' : Checked α}
    (h : checkedAnswer F X replies test c q = some (r, c')) :
    c.Answers F X q r c' ∧ test c.world q r = true := by
  unfold checkedAnswer at h
  split at h
  · next r₁ w₁ hcalm =>
    split at h
    · next htest =>
      cases h
      exact ⟨⟨calmAnswer_sound hcalm, rfl⟩, htest⟩
    · cases h
  · cases h

section Runs

/-- The parties in the runs, and their store. -/
abbrev MailboxPool := Pool queueSignature (Checked JournalEntry) Tally

abbrev mailboxDynamics (Condition : World JournalEntry → (q : QueueQuery) → q.Reply → Prop) :
    Dynamics queueSignature (Checked JournalEntry) Tally :=
  checkedDynamics recordFormat bareExternals mailboxManager Condition

variable {Condition : World JournalEntry → (q : QueueQuery) → q.Reply → Prop}
  {test : World JournalEntry → (q : QueueQuery) → q.Reply → Bool}

def mailboxOracle (h : ∀ {w q r}, test w q r = true → Condition w q r) :
    Oracle (mailboxDynamics Condition) where
  answer := checkedAnswer recordFormat bareExternals oneMailbox test
  sound hanswer := ⟨(checkedAnswer_sound hanswer).1, h (checkedAnswer_sound hanswer).2⟩

/-- What is put on a channel is up to date. -/
def currentOracle : Oracle (mailboxDynamics UpToDate) := mailboxOracle upToDate_sound

/-- It need not be. -/
def anyOracle : Oracle (mailboxDynamics fun _ _ _ => True) :=
  @mailboxOracle _ (fun _ _ _ => true) fun _ => trivial

/-- The first party takes a snapshot. -/
def takeSnapshot (order : List String) (P : MailboxPool) : MailboxPool :=
  match P.threads with
  | ⟨l, .ask (.listByStatus status tier) k⟩ :: ts =>
    ⟨P.world, ⟨l, k (listByStatus order P.world.world.store status tier)⟩ :: ts⟩
  | _ => P

variable {P : MailboxPool}

theorem reaches_takeSnapshot {order : List String} (h : Traverses order P.world.world.store.index) :
    Reaches (mailboxDynamics fun _ _ _ => True) tally P (takeSnapshot order P) := by
  obtain ⟨c, ts⟩ := P
  unfold takeSnapshot
  split
  · next l status tier k ts' hts =>
    obtain rfl : ts = _ := hts
    have hanswer : (mailboxDynamics fun _ _ _ => True).answer c (.listByStatus status tier)
        (listByStatus order c.world.store status tier) c :=
      ⟨⟨⟨⟨order, h, rfl⟩, rfl⟩, rfl⟩, trivial⟩
    have hstep : Step (mailboxDynamics fun _ _ _ => True) tally
        ⟨c, [] ++ ⟨l, .ask (.listByStatus status tier) k⟩ :: ts'⟩
        ⟨c, [] ++ ⟨l, k (listByStatus order c.world.store status tier)⟩ :: ts'⟩ := .act hanswer
    exact .single hstep
  · exact .refl

/-- A worker takes the first message of a channel. -/
def takeMessage (ch : Channel) (P : MailboxPool) : MailboxPool :=
  match P.world.world.slots ch with
  | [] => P
  | msg :: rest =>
    ⟨⟨{ P.world.world with slots := update P.world.world.slots ch rest },
      P.world.completed⟩, ⟨.start msg, mailboxManager.processMessage msg⟩ :: P.threads⟩

theorem reaches_takeMessage (ch : Channel) (P : MailboxPool) :
    Reaches (mailboxDynamics Condition) tally P (takeMessage ch P) := by
  unfold takeMessage
  split
  · exact .refl
  · next msg rest hslot => exact .single (.enter ⟨.worker hslot, rfl⟩)

/-- `Enqueue` is called. -/
def calledPool : MailboxPool :=
  ⟨⟨emptyWorld, fun _ => []⟩,
    [⟨{}, mailboxManager.enqueue twoMailboxes >>= fun _ => pure ()⟩]⟩

theorem reaches_calledPool :
    Reaches (mailboxDynamics Condition) tally ⟨⟨emptyWorld, fun _ => []⟩, []⟩ calledPool :=
  .single (.enter ⟨.enqueue twoMailboxes
    ⟨by decide, by simp [twoMailboxes], by simp [twoMailboxes]⟩, rfl⟩)

/-- The recipient the first party is about to attempt. -/
def firstAttempt (P : MailboxPool) : Option (String × String) :=
  match P.threads with
  | ⟨_, .ask (.beginAttempt id rcpt) _⟩ :: _ => some (id, rcpt)
  | _ => none

theorem mem_of_firstAttempt {id rcpt : String} (h : firstAttempt P = some (id, rcpt)) :
    ∃ l k, ⟨l, .ask (.beginAttempt id rcpt) k⟩ ∈ P.threads := by
  unfold firstAttempt at h
  split at h
  · next l id' rcpt' k ts hts =>
    cases h
    exact ⟨l, k, hts ▸ mem_cons_self⟩
  · cases h

end Runs

/-- The message is accepted, and its worker is about to attempt the second
recipient. -/
def secondPool : MailboxPool :=
  (takeMessage .out (calledPool.advance currentOracle tally 0 4)).advance currentOracle tally 0 6

/-- The first recipient is completed; the one attempted next is not. -/
theorem completed_not_attempted_second :
    secondPool.world.completed "m1" = ["a@y"] ∧ firstAttempt secondPool = some ("m1", "b@y") ∧
      "b@y" ∉ secondPool.world.completed "m1" := by
  have hrun := (reaches_calledPool.trans (reaches_advance currentOracle 0 4 _)).trans
    ((reaches_takeMessage .out _).trans (reaches_advance currentOracle 0 6 _))
  have hattempt : firstAttempt secondPool = some ("m1", "b@y") := rfl
  obtain ⟨l, k, hmem⟩ := mem_of_firstAttempt hattempt
  exact ⟨rfl, hattempt, completed_not_attempted emptyWorld_atRest hrun l "m1" "b@y" k hmem⟩

/-- `Enqueue` has stored the message and not queued it yet. -/
def storedPool : MailboxPool := calledPool.advance anyOracle tally 0 2

theorem storedPool_traverses : Traverses ["m1"] storedPool.world.world.store.index := by
  have hindex : storedPool.world.world.store.index =
      update (fun _ => none) "m1" (storedPool.world.world.store.index "m1") := rfl
  have hsome : (storedPool.world.world.store.index "m1").isSome = true := rfl
  obtain ⟨e, he⟩ := Option.isSome_iff_exists.mp hsome
  exact traverses_update_none (hindex.trans (by rw [he]))

/-- The scheduler starts. -/
def scheduledPool : MailboxPool :=
  ⟨storedPool.world,
    ⟨{}, mailboxManager.processRetries >>= fun _ => pure ()⟩ :: storedPool.threads⟩

/-- The scheduler has its snapshot. -/
def snapshotPool : MailboxPool :=
  (takeSnapshot ["m1"] (takeSnapshot ["m1"] scheduledPool)).advance anyOracle tally 0 1

/-- `Enqueue` goes on, and a worker delivers to the first recipient only. -/
def deliveredPool : MailboxPool :=
  (takeMessage .out (snapshotPool.advance anyOracle tally 1 2)).advance anyOracle tally 0 13

/-- The scheduler goes on, and another worker takes the message. -/
def stalePool : MailboxPool :=
  (takeMessage .out (deliveredPool.advance anyOracle tally 1 3)).advance anyOracle tally 0 2

/-- **A completed recipient is attempted again**: the scheduler's copy of the
message is older than the checkpoint. -/
theorem completed_attempted_again :
    ∃ c ts, Reaches (checkedDynamics recordFormat bareExternals mailboxManager fun _ _ _ => True)
        tally ⟨⟨emptyWorld, fun _ => []⟩, []⟩ ⟨c, ts⟩ ∧
      "a@y" ∈ c.completed "m1" ∧ ∃ l k, ⟨l, .ask (.beginAttempt "m1" "a@y") k⟩ ∈ ts := by
  have hstored : Reaches (mailboxDynamics fun _ _ _ => True) tally
      ⟨⟨emptyWorld, fun _ => []⟩, []⟩ scheduledPool :=
    (reaches_calledPool.trans (reaches_advance anyOracle 0 2 _)).tail
      (.enter ⟨.processRetries, rfl⟩)
  have hsnapshot : Reaches (mailboxDynamics fun _ _ _ => True) tally scheduledPool snapshotPool :=
    (reaches_takeSnapshot (P := scheduledPool) storedPool_traverses).trans
      ((reaches_takeSnapshot (P := takeSnapshot ["m1"] scheduledPool) storedPool_traverses).trans
        (reaches_advance anyOracle 0 1 _))
  have hdelivered : Reaches (mailboxDynamics fun _ _ _ => True) tally snapshotPool deliveredPool :=
    (reaches_advance anyOracle 1 2 _).trans
      ((reaches_takeMessage .out _).trans (reaches_advance anyOracle 0 13 _))
  have hstale : Reaches (mailboxDynamics fun _ _ _ => True) tally deliveredPool stalePool :=
    (reaches_advance anyOracle 1 3 _).trans
      ((reaches_takeMessage .out _).trans (reaches_advance anyOracle 0 2 _))
  have hattempt : firstAttempt stalePool = some ("m1", "a@y") := rfl
  have hcompleted : stalePool.world.completed "m1" = ["a@y"] := rfl
  exact ⟨stalePool.world, stalePool.threads,
    hstored.trans (hsnapshot.trans (hdelivered.trans hstale)),
    by rw [hcompleted]; exact mem_singleton_self _, mem_of_firstAttempt hattempt⟩

end EmailService
