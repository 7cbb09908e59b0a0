/-
EmailService/Ownership.lean

Each message in delivery has one owner.

A message in status queued or processing belongs to a slot of a channel, or to
a party that has it in hand, in the sense of the monitor `owner`.  `Exclusive`
relates that to the index: the holdings are disjoint, they are in the index
with the right status, and every message in delivery is among them.

Main result: `one_owner`, over all interleavings.
-/
import EmailService.Disposal
import EmailService.Tally
import EmailService.Threads

namespace EmailService

open GoStrings Program Threads List Function Prod

variable {α : Type}

/-! ### The holders of a message -/

/-- The channels, each once. -/
def channels : List Channel := [.emergency, .msa, .int, .out, .bulk]

def slotIDs (slots : Channel → List Message) : List String :=
  (channels.flatMap slots).map Message.id

/-- The IDs in hand of the parties. -/
def handIDs (ls : List (List Holding)) : List String := ls.flatten.map fst

/-- Who holds what: an ID occurs once for each slot and each party it is held by. -/
def World.holders (w : World α) (ls : List (List Holding)) : List String :=
  slotIDs w.slots ++ handIDs ls

structure Exclusive (w : World α) (ls : List (List Holding)) : Prop where
  tidy : Tidy w.store.index
  nodup : (w.holders ls).Nodup
  slots : ∀ id ∈ slotIDs w.slots, Holds w.store.index id "queued"
  held : ∀ l ∈ ls, ∀ h ∈ l, Busy h.2 ∧ Holds w.store.index h.1 h.2
  covered : ∀ id e, w.store.index id = some e → Busy e.status → id ∈ w.holders ls

section Exclusive

variable {w w' : World α} {before after ls : List (List Holding)} {l l' : List Holding}

/-- The holders, those in the hand of one party first. -/
theorem holders_perm (w : World α) (before after : List (List Holding)) (l : List Holding) :
    (w.holders (before ++ l :: after)).Perm (l.map fst ++ w.holders (before ++ after)) := by
  rw [perm_iff_count]
  intro id
  simp only [World.holders, handIDs, flatten_append, flatten_cons, map_append,
    count_append]
  omega

variable {id a : String} {slots : Channel → List Message} {ch : Channel} {msg : Message}
  {rest : List Message} {e : JournalEntry} {o : Option JournalEntry}

theorem mem_holders_iff : id ∈ w.holders (before ++ l :: after) ↔
    id ∈ l.map fst ∨ id ∈ w.holders (before ++ after) := by
  rw [(holders_perm w before after l).mem_iff, mem_append]

theorem slotIDs_update (slots : Channel → List Message) (ch : Channel) (ms ms' : List Message)
    (h : slots ch = ms) :
    (ms.map Message.id ++ slotIDs (update slots ch ms')).Perm
      (ms'.map Message.id ++ slotIDs slots) := by
  rw [perm_iff_count]
  intro id
  cases ch <;> simp [slotIDs, channels, update, ← h] <;> omega

theorem mem_slotIDs (h : slots ch = msg :: rest) : msg.id ∈ slotIDs slots := by
  refine mem_map.mpr ⟨msg, mem_flatMap.mpr ⟨ch, ?_, ?_⟩, rfl⟩
  · cases ch <;> decide
  · rw [h]
    exact mem_cons_self

section

variable (h : Exclusive w ls)

include h

/-- Everything held is in the index as a message in delivery. -/
theorem Exclusive.holds (hid : id ∈ w.holders ls) :
    ∃ status, Busy status ∧ Holds w.store.index id status := by
  rcases mem_append.mp hid with hid | hid
  · exact ⟨"queued", .inl rfl, h.slots id hid⟩
  · obtain ⟨holding, hmem, rfl⟩ := mem_map.mp hid
    obtain ⟨l, hl, hmem⟩ := mem_flatten.mp hmem
    exact ⟨holding.2, h.held l hl holding hmem⟩

theorem Exclusive.not_held (he : w.store.index id = some e)
    (hidle : ¬ Busy e.status) : id ∉ w.holders ls := by
  intro hid
  obtain ⟨status, hbusy, e', he', hstatus, -⟩ := h.holds hid
  rw [he] at he'
  cases he'
  exact hidle (hstatus ▸ hbusy)

/-- Only the index changes, and what is held is still there. -/
theorem Exclusive.reindex (hslots : w'.slots = w.slots)
    (htidy : Tidy w'.store.index)
    (hkeep : ∀ id status, Busy status → Holds w.store.index id status →
      Holds w'.store.index id status)
    (hnew : ∀ id e', w'.store.index id = some e' → Busy e'.status →
      ∃ e, w.store.index id = some e ∧ Busy e.status) : Exclusive w' ls := by
  have hholders : w'.holders ls = w.holders ls := by rw [World.holders, World.holders, hslots]
  refine ⟨htidy, hholders ▸ h.nodup, fun id hid => ?_, fun l hl x hx => ?_, fun id e he hbusy => ?_⟩
  · exact hkeep id _ (.inl rfl) (h.slots id (hslots ▸ hid))
  · obtain ⟨hbusy, hholds⟩ := h.held l hl x hx
    exact ⟨hbusy, hkeep _ _ hbusy hholds⟩
  · obtain ⟨e₀, he₀, hbusy₀⟩ := hnew id e he hbusy
    rw [hholders]
    exact h.covered id e₀ he₀ hbusy₀

theorem Exclusive.passive (hslots : w'.slots = w.slots)
    (hpassive : Passive w.store.index w'.store.index) : Exclusive w' ls := by
  refine h.reindex hslots hpassive.tidy ?_ fun id e' he' hbusy => ?_
  · rintro id status hbusy ⟨e, he, rfl, hcompliance⟩
    obtain ⟨e', he', halike⟩ := (hpassive.same id).1 e he hbusy
    exact ⟨e', he', halike.status, halike.compliance ▸ hcompliance⟩
  · obtain ⟨e, he, halike⟩ := (hpassive.same id).2 e' he' hbusy
    exact ⟨e, he, halike.status ▸ hbusy⟩

end

section

variable (h : Exclusive w (before ++ l :: after))

include h

/-- One party's hand and one entry of the index change together: afterwards the
party holds the entry or not, as the entry is in delivery or not. -/
theorem Exclusive.change (hslots : w'.slots = w.slots)
    (htidy : Tidy w'.store.index) (hindex : w'.store.index = update w.store.index id o)
    (hfree : id ∉ w.holders (before ++ after)) (hnodup : (l'.map fst).Nodup)
    (hsame : ∀ x, x.1 ≠ id → (x ∈ l' ↔ x ∈ l))
    (hmine : ∀ status, (id, status) ∈ l' → Busy status ∧ Holds w'.store.index id status)
    (hcover : ∀ e, o = some e → Busy e.status → ∃ status, (id, status) ∈ l') :
    Exclusive w' (before ++ l' :: after) := by
  have hholders : w'.holders (before ++ after) = w.holders (before ++ after) := by
    rw [World.holders, World.holders, hslots]
  have hmove : ∀ {k status}, k ≠ id → Holds w.store.index k status →
      Holds w'.store.index k status := by
    rintro k status hk ⟨e, he, hrest⟩
    exact ⟨e, by rw [hindex, update_of_ne hk, he], hrest⟩
  have hother : ∀ {k}, k ∈ w.holders (before ++ after) → k ≠ id := by
    rintro k hk rfl
    exact hfree hk
  refine ⟨htidy, ?_, fun k hk => ?_, fun l₁ hl₁ x hx => ?_, fun k e he hbusy => ?_⟩
  · rw [(holders_perm w' before after l').nodup_iff, hholders, nodup_append]
    have hnd := (holders_perm w before after l).nodup_iff.mp h.nodup
    obtain ⟨-, hrest, hdisjoint⟩ := nodup_append.mp hnd
    refine ⟨hnodup, hrest, fun a ha b hb => ?_⟩
    obtain ⟨x, hx, rfl⟩ := mem_map.mp ha
    by_cases hid : x.1 = id
    · rintro rfl
      exact hfree (hid ▸ hb)
    · exact hdisjoint _ (mem_map.mpr ⟨x, (hsame x hid).mp hx, rfl⟩) b hb
  · rw [hslots] at hk
    exact hmove (hother (mem_append_left _ hk)) (h.slots k hk)
  · -- a holding of another party, or one of this party
    have hcase : l₁ = l' ∨ l₁ ∈ before ++ after := by
      rcases mem_append.mp hl₁ with hl₁ | hl₁
      · exact .inr (mem_append_left _ hl₁)
      · exact (mem_cons.mp hl₁).imp_right (mem_append_right _)
    rcases hcase with rfl | hl₁
    · by_cases hid : x.1 = id
      · obtain ⟨k, status⟩ := x
        cases hid
        exact hmine status hx
      · obtain ⟨hbusy, hholds⟩ := h.held l (mem_append_right _ mem_cons_self) x
          ((hsame x hid).mp hx)
        exact ⟨hbusy, hmove hid hholds⟩
    · have hmem : l₁ ∈ before ++ l :: after := by
        rcases mem_append.mp hl₁ with hl₁ | hl₁
        · exact mem_append_left _ hl₁
        · exact mem_append_right _ (mem_cons_of_mem _ hl₁)
      obtain ⟨hbusy, hholds⟩ := h.held l₁ hmem x hx
      refine ⟨hbusy, hmove (hother (mem_append_right _ ?_)) hholds⟩
      exact mem_map.mpr ⟨x, mem_flatten.mpr ⟨l₁, hl₁, hx⟩, rfl⟩
  · rw [mem_holders_iff, hholders]
    by_cases hk : k = id
    · subst hk
      rw [hindex, update_self] at he
      obtain ⟨status, hmem⟩ := hcover e he hbusy
      exact .inl (mem_map.mpr ⟨_, hmem, rfl⟩)
    · rw [hindex, update_of_ne hk] at he
      rcases mem_holders_iff.mp (h.covered k e he hbusy) with hmem | hmem
      · obtain ⟨x, hx, rfl⟩ := mem_map.mp hmem
        exact .inl (mem_map.mpr ⟨x, (hsame x hk).mpr hx, rfl⟩)
      · exact .inr hmem

/-- What a party has in hand is in nobody else's. -/
theorem Exclusive.mine (hmem : (id, a) ∈ l) :
    id ∉ w.holders (before ++ after) := by
  have hnd := (holders_perm w before after l).nodup_iff.mp h.nodup
  exact fun hid => (nodup_append.mp hnd).2.2 id (mem_map.mpr ⟨_, hmem, rfl⟩) id hid rfl

theorem Exclusive.hand (hmem : (id, a) ∈ l) :
    Busy a ∧ Holds w.store.index id a :=
  h.held l (mem_append_right _ mem_cons_self) _ hmem

theorem Exclusive.hand_nodup :
    (l.map fst).Nodup :=
  (nodup_append.mp ((holders_perm w before after l).nodup_iff.mp h.nodup)).1

end

theorem map_without (l : List Holding) (id : String) :
    (without l id).map fst = (l.map fst).filter (· ≠ id) := by
  unfold without
  rw [filter_map]
  rfl

theorem nodup_without (h : (l.map fst).Nodup) (id : String) :
    ((without l id).map fst).Nodup := by
  rw [map_without]
  exact h.filter _

theorem nodup_retake (h : (l.map fst).Nodup) (id status : String) :
    (((id, status) :: without l id).map fst).Nodup := by
  rw [map_cons, nodup_cons]
  refine ⟨?_, nodup_without h id⟩
  rw [map_without]
  simp

/-- The message in hand, or a pending one, is given a status of delivery. -/
theorem Exclusive.retake (h : Exclusive w (before ++ l :: after)) (hslots : w'.slots = w.slots)
    {toStatus : String} {v : JournalEntry} (he : w.store.index id = some e)
    (hcompliance : e.meta "compliance" ≠ "true") (hrevise : Revises e v)
    (hstatus : v.status = toStatus) (hto : Busy toStatus)
    (hindex : w'.store.index = update w.store.index id (some v))
    (hsieve : hasPrefix id "sieve-" = false) (hfree : id ∉ w.holders (before ++ after)) :
    Exclusive w' (before ++ ((id, toStatus) :: without l id) :: after) := by
  refine h.change hslots ?_ hindex hfree (nodup_retake h.hand_nodup id toStatus) (fun x hx => ?_)
    (fun status hmem => ?_) fun e' he' _ => ⟨toStatus, mem_cons_self⟩
  · rw [hindex]
    refine h.tidy.update (fun _ hv => ?_) fun _ _ hid => ?_
    · cases hv
      exact hrevise.messageID.trans (h.tidy.keyed id e he)
    · exact absurd (hsieve.symm.trans hid) Bool.false_ne_true
  · rw [mem_cons, mem_without]
    constructor
    · rintro (rfl | hmem)
      · exact absurd rfl hx
      · exact hmem.1
    · exact fun hmem => .inr ⟨hmem, hx⟩
  · have htaken : status = toStatus := by
      rcases mem_cons.mp hmem with heq | hmem
      · exact congrArg snd heq
      · exact absurd rfl (mem_without.mp hmem).2
    subst htaken
    refine ⟨hto, v, by rw [hindex, update_self], hstatus, ?_⟩
    unfold JournalEntry.meta at hcompliance ⊢
    rwa [hrevise.metadata]

/-- The message in hand leaves delivery. -/
theorem Exclusive.release (h : Exclusive w (before ++ l :: after)) (hslots : w'.slots = w.slots)
    (hmem : (id, a) ∈ l) (he : w.store.index id = some e)
    (hindex : w'.store.index = update w.store.index id o)
    (ho : ∀ v, o = some v → Revises e v ∧ ¬ Busy v.status)
    (hsieve : hasPrefix id "sieve-" = false) : Exclusive w' (before ++ without l id :: after) := by
  refine h.change hslots ?_ hindex (h.mine hmem) (nodup_without h.hand_nodup id) (fun x hx => ?_)
    (fun status hmem => absurd rfl (mem_without.mp hmem).2)
    fun v hv hbusy => absurd hbusy (ho v hv).2
  · rw [hindex]
    refine h.tidy.update (fun v hv => ?_) fun _ _ hid => ?_
    · exact (ho v hv).1.messageID.trans (h.tidy.keyed id e he)
    · exact absurd (hsieve.symm.trans hid) Bool.false_ne_true
  · exact mem_without.trans (and_iff_left hx)

/-- A message in delivery has no Sieve ID. -/
theorem Tidy.not_sieve_of_busy {index : String → Option JournalEntry} (h : Tidy index)
    {status : String} (hbusy : Busy status) (hholds : Holds index id status) :
    hasPrefix id "sieve-" = false := by
  obtain ⟨e, he, rfl, -⟩ := hholds
  refine h.not_sieve he fun hstatus => ?_
  rw [hstatus] at hbusy
  exact absurd hbusy (by decide)

/-- Holdings pass from one party to another. -/
theorem Exclusive.repartition (h : Exclusive w ls) {ls' : List (List Holding)}
    (hperm : (World.holders { w with slots := slots } ls').Perm (w.holders ls))
    (hslots : ∀ id ∈ slotIDs slots, Holds w.store.index id "queued")
    (hheld : ∀ l ∈ ls', ∀ x ∈ l, Busy x.2 ∧ Holds w.store.index x.1 x.2) :
    Exclusive { w with slots := slots } ls' :=
  ⟨h.tidy, hperm.nodup_iff.mpr h.nodup, hslots, hheld,
    fun id e he hbusy => hperm.mem_iff.mpr (h.covered id e he hbusy)⟩

/-- A message in hand goes into a slot. -/
theorem Exclusive.send (h : Exclusive w (before ++ l :: after)) (hmem : (msg.id, "queued") ∈ l) :
    Exclusive { w with slots := update w.slots ch (w.slots ch ++ [msg]) }
      (before ++ without l msg.id :: after) := by
  have hslots : (slotIDs (update w.slots ch (w.slots ch ++ [msg]))).Perm
      (msg.id :: slotIDs w.slots) := by
    have hperm := slotIDs_update w.slots ch _ (w.slots ch ++ [msg]) rfl
    rw [map_append, append_assoc] at hperm
    exact (perm_append_left_iff _).mp hperm
  have hhand : (l.map fst).Perm (msg.id :: (without l msg.id).map fst) := by
    have herase : (without l msg.id).map fst = (l.map fst).erase msg.id := by
      rw [map_without, h.hand_nodup.erase_eq_filter]
      exact filter_congr fun x _ => Bool.eq_iff_iff.mpr (by simp)
    rw [herase]
    exact perm_cons_erase (mem_map.mpr ⟨_, hmem, rfl⟩)
  refine h.repartition ?_ (fun id hid => ?_) fun l₁ hl₁ x hx => ?_
  · -- the ID is counted in the slots now, and no longer in the hand
    refine (holders_perm _ before after _).trans (.trans ?_ (holders_perm w before after l).symm)
    rw [perm_iff_count]
    intro id
    have h₁ := perm_iff_count.mp hslots id
    have h₂ := perm_iff_count.mp hhand id
    simp only [World.holders, count_append, count_cons] at h₁ h₂ ⊢
    omega
  · rcases mem_cons.mp (hslots.mem_iff.mp hid) with rfl | hid
    · exact (h.hand hmem).2
    · exact h.slots id hid
  · rcases mem_append.mp hl₁ with hl₁ | hl₁
    · exact h.held l₁ (mem_append_left _ hl₁) x hx
    · rcases mem_cons.mp hl₁ with rfl | hl₁
      · exact h.hand (mem_without.mp hx).1
      · exact h.held l₁ (mem_append_right _ (mem_cons_of_mem _ hl₁)) x hx

/-- A worker takes the first message of a channel. -/
theorem Exclusive.receive (h : Exclusive w ls) (hslot : w.slots ch = msg :: rest) :
    Exclusive { w with slots := update w.slots ch rest } ([(msg.id, "queued")] :: ls) := by
  have hslots : (msg.id :: slotIDs (update w.slots ch rest)).Perm (slotIDs w.slots) := by
    have hperm := slotIDs_update w.slots ch _ rest hslot
    rw [map_cons, cons_append] at hperm
    exact (perm_append_left_iff _).mp (perm_middle.trans hperm)
  refine h.repartition ?_ (fun id hid => ?_) fun l₁ hl₁ x hx => ?_
  · refine (holders_perm _ [] ls _).trans ?_
    exact hslots.append_right (handIDs ls)
  · exact h.slots id (hslots.mem_iff.mp (mem_cons_of_mem _ hid))
  · rcases mem_cons.mp hl₁ with rfl | hl₁
    · obtain rfl := mem_singleton.mp hx
      exact ⟨.inl rfl, h.slots _ (hslots.mem_iff.mp mem_cons_self)⟩
    · exact h.held l₁ hl₁ x hx

end Exclusive

/-! ### All interleavings -/

/-- The parties: callers of the queue manager, the retry scheduler, and the
workers, which start from the first message of a channel. -/
inductive Enters (qm : QueueManager) (w : World α) :
    Program queueSignature Unit → Tally → World α → Prop
  | enqueue (msg : Message) (hmsg : Acceptable msg) :
      Enters qm w (qm.enqueue msg >>= fun _ => pure ()) {} w
  | releaseHeld (id actor : String) :
      Enters qm w (qm.releaseHeld id actor >>= fun _ => pure ()) {} w
  | releaseCompliance (id actor reason : String) :
      Enters qm w (qm.releaseCompliance id actor reason >>= fun _ => pure ()) {} w
  | sendDSN (msg : Message) (rcpt event action : String) :
      Enters qm w (qm.sendDSN msg rcpt event action >>= fun _ => pure ()) {} w
  | processRetries : Enters qm w (qm.processRetries >>= fun _ => pure ()) {} w
  | worker {ch : Channel} {msg : Message} {rest : List Message}
      (hslot : w.slots ch = msg :: rest) :
      Enters qm w (qm.processMessage msg) (.start msg)
        { w with slots := update w.slots ch rest }

variable {qm : QueueManager} {w w' : World α} {p : Program queueSignature Unit} {l : Tally}
  {ls : List (List Holding)}

/-- Every party keeps to its specification and ends with nothing in hand. -/
theorem Enters.over (h : Enters qm w p l w')
    (hsieve : ∀ id ∈ slotIDs w.slots, hasPrefix id "sieve-" = false) :
    Spec tally p l fun _ l' => l'.Over := by
  have hquiet : ∀ {β : Type} {p : Queue β}, Quiet tally Tally.Idle p →
      Spec tally (p >>= fun _ => pure ()) {} fun _ l' => l'.Over := by
    intro β p hp
    have hempty : Tally.Steady {} := ⟨rfl, fun _ _ h => (nomatch h)⟩
    refine (hp {} ⟨⟨hempty, rfl⟩, rfl⟩).bind ?_
    rintro b l' ⟨-, ⟨-, rfl⟩, -⟩
    exact ⟨rfl, fun _ h => (nomatch h)⟩
  cases h with
  | enqueue msg hmsg => exact hquiet (qm.enqueue_side idle_sideways hmsg)
  | releaseHeld id actor => exact hquiet (qm.releaseHeld_side idle_errands id actor)
  | releaseCompliance id actor reason =>
    exact hquiet (qm.releaseCompliance_side idle_errands id actor reason)
  | sendDSN msg rcpt event action =>
    exact hquiet (qm.sendDSN_side idle_sideways rcpt event action)
  | processRetries => exact hquiet (qm.processRetries_side idle_errands)
  | worker hslot => exact processMessage_over (hsieve _ (mem_slotIDs hslot))

theorem Enters.spec (h : Enters qm w p l w')
    (hsieve : ∀ id ∈ slotIDs w.slots, hasPrefix id "sieve-" = false) :
    Spec tally p l fun _ l' => l'.hand = [] :=
  (h.over hsieve).mono fun _ _ h => h.hand

theorem Enters.store_eq (h : Enters qm w p l w') : w'.store = w.store := by
  cases h <;> rfl

/-- The holdings of a party are what it starts with, and a worker's come from a
slot. -/
theorem Exclusive.enter (h : Exclusive w ls) (henter : Enters qm w p l w') :
    Exclusive w' (l.hand :: ls) := by
  have hempty : Exclusive w ([] :: ls) :=
    ⟨h.tidy, h.nodup, h.slots, fun l hl x hx => by
      rcases mem_cons.mp hl with rfl | hl
      · cases hx
      · exact h.held l hl x hx, h.covered⟩
  cases henter with
  | worker hslot => exact h.receive hslot
  | _ => exact hempty

theorem Exclusive.leave {before after : List (List Holding)}
    (h : Exclusive w (before ++ [] :: after)) : Exclusive w (before ++ after) := by
  have hsame : (before ++ [] :: after).flatten = (before ++ after).flatten := by simp
  refine ⟨h.tidy, ?_, h.slots, fun l hl => h.held l ?_, fun id e he hbusy => ?_⟩
  · have hnodup := h.nodup
    rwa [World.holders, handIDs, hsame] at hnodup
  · rcases mem_append.mp hl with hl | hl
    · exact mem_append_left _ hl
    · exact mem_append_right _ (mem_cons_of_mem _ hl)
  · have hcovered := h.covered id e he hbusy
    rwa [World.holders, handIDs, hsame] at hcovered

theorem Exclusive.slots_not_sieve (h : Exclusive w ls) :
    ∀ id ∈ slotIDs w.slots, hasPrefix id "sieve-" = false :=
  fun id hid => h.tidy.not_sieve_of_busy (.inl rfl) (h.slots id hid)

def queueDynamics (F : JournalFormat α) (X : Externals) (qm : QueueManager) :
    Dynamics queueSignature (World α) (List Holding) where
  answer := World.Answers F X
  enter w p hand w' := ∃ l, Enters qm w p l w' ∧ l.hand = hand

/-- A store with nothing in delivery, as recovery leaves it, and empty channels. -/
structure World.AtRest (w : World α) : Prop where
  tidy : Tidy w.store.index
  idle : ∀ id e, w.store.index id = some e → ¬ Busy e.status
  slots : ∀ ch, w.slots ch = []

variable {F : JournalFormat α} {X : Externals} {qm : QueueManager}

theorem exclusive_atRest (h : w.AtRest) : Exclusive w [] where
  tidy := h.tidy
  nodup := by simp [World.holders, slotIDs, handIDs, channels, h.slots]
  slots id hid := by simp [slotIDs, channels, h.slots] at hid
  held l hl := by cases hl
  covered id e he hbusy := absurd hbusy (h.idle id e he)

section Answers

variable {w w' : World α} {before after : List (List Holding)} {l : List Holding}
  {r : Except String Answer}

variable {id status : String}

theorem exclusive_transition {fromStatus toStatus : String} (h : Exclusive w (before ++ l :: after))
    (hallow : Owner.Allows l (.store (.transition id fromStatus toStatus)))
    (hcall : w.store.Calls F X (.transition id fromStatus toStatus) r w'.store)
    (hslots : w'.slots = w.slots) :
    Owner.Offers l (.store (.transition id fromStatus toStatus)) r ∧
      Exclusive w' (before ++
        Owner.track l (.store (.transition id fromStatus toStatus)) r :: after) := by
  have hto : toStatus ≠ "deleted" := by
    rcases hallow with ⟨-, rfl⟩ | ⟨-, -, rfl | rfl⟩ <;> decide
  rcases transition_effect hto hcall with
    ⟨e, v, he, hfrom, hcompliance, hrevise, hstatus, -, rfl, hindex⟩ | ⟨hr, hindex, hnot⟩
  · have hpending : fromStatus = "pending" →
        id ∉ w.holders (before ++ l :: after) ∧ hasPrefix id "sieve-" = false := by
      rintro rfl
      refine ⟨h.not_held he ?_, h.tidy.not_sieve he ?_⟩ <;> rw [hfrom] <;> decide
    refine ⟨⟨fun _ => rfl, fun hp _ => ⟨fun x hx hid => ?_, (hpending hp).2⟩⟩, ?_⟩
    · exact (hpending hp).1 (mem_holders_iff.mpr (.inl (mem_map.mpr ⟨x, hx, hid⟩)))
    · rcases hallow with ⟨hp, rfl⟩ | ⟨hmem, rfl, rfl | rfl⟩
      · obtain ⟨hfree, hsieve⟩ := hpending hp
        exact h.retake hslots he hcompliance hrevise hstatus (.inl rfl) hindex hsieve
          fun hid => hfree (mem_holders_iff.mpr (.inr hid))
      · have hsieve := h.tidy.not_sieve_of_busy (.inl rfl) (h.hand hmem).2
        exact h.retake hslots he hcompliance hrevise hstatus (.inr rfl) hindex hsieve
          (h.mine hmem)
      · have hsieve := h.tidy.not_sieve_of_busy (.inl rfl) (h.hand hmem).2
        refine h.release hslots hmem he hindex (fun _ hv => ?_) hsieve
        cases hv
        exact ⟨hrevise, by rw [hstatus]; decide⟩
  · refine ⟨⟨fun hmem => absurd (h.hand hmem).2 hnot, fun _ hgrant => ?_⟩, ?_⟩
    · exact absurd (hr.symm.trans hgrant) Bool.false_ne_true
    · rw [show Owner.track l (.store (.transition id fromStatus toStatus)) r = l from
        ownerTrack_of_not_granted hr]
      exact h.passive hslots (by rw [hindex]; exact .refl h.tidy)

/-- A call on a message in hand finds it. -/
theorem Exclusive.found {ls : List (List Holding)} (h : Exclusive w ls) (hl : l ∈ ls) {a : String}
    (hmem : (id, a) ∈ l) : ∃ e, w.store.index id = some e ∧ e.meta "compliance" ≠ "true" := by
  obtain ⟨-, e, he, -, hcompliance⟩ := h.held l hl _ hmem
  exact ⟨e, he, hcompliance⟩

theorem not_busy_of_mem (h : status ∈ ["pending", "delivered", "failed"]) : ¬ Busy status := by
  simp only [mem_cons, not_mem_nil, or_false] at h
  rcases h with rfl | rfl | rfl <;> decide

section

variable (h : Exclusive w (before ++ l :: after))

include h

theorem exclusive_updateStatus {errorMsg : String}
    (hallow : Owner.Allows l (.store (.updateStatus id status errorMsg)))
    (hcall : w.store.Calls F X (.updateStatus id status errorMsg) r w'.store)
    (hslots : w'.slots = w.slots) :
    Owner.Offers l (.store (.updateStatus id status errorMsg)) r ∧
      Exclusive w' (before ++
        Owner.track l (.store (.updateStatus id status errorMsg)) r :: after) := by
  have hfound : (∃ a, (id, a) ∈ l) → ∃ e, w.store.index id = some e ∧
      e.meta "compliance" ≠ "true" := fun ⟨_, hmem⟩ =>
    h.found (mem_append_right _ mem_cons_self) hmem
  rcases hallow with ⟨rfl, hsieve⟩ | ⟨⟨a, hmem⟩, hstatuses⟩
  · have hpassive := h.passive hslots (updateStatus_sieve_passive h.tidy hsieve hcall)
    have htrack : Owner.track l (.store (.updateStatus id "delivered" errorMsg)) r = l := by
      cases r with
      | error err => rfl
      | ok x => exact if_pos hsieve
    refine ⟨fun ⟨a, hmem⟩ => ?_, by rw [htrack]; exact hpassive⟩
    -- a message in hand has no Sieve ID
    obtain ⟨hbusy, hholds⟩ := h.hand hmem
    exact absurd ((h.tidy.not_sieve_of_busy hbusy hholds).symm.trans hsieve) Bool.false_ne_true
  · obtain ⟨hbusy, hholds⟩ := h.hand hmem
    have hsieve := h.tidy.not_sieve_of_busy hbusy hholds
    rcases updateStatus_effect hcall with
      ⟨e, v, he, -, hrevise, hstatus, -, rfl, hindex⟩ | ⟨-, -, hnot⟩
    · have htrack : Owner.track l (.store (.updateStatus id status errorMsg)) (.ok .done) =
          without l id := by
        show (if hasPrefix id "sieve-" then l else without l id) = _
        rw [hsieve]
        rfl
      refine ⟨fun _ => ⟨_, rfl⟩, ?_⟩
      rw [htrack]
      refine h.release hslots hmem he hindex (fun v' hv => ?_) hsieve
      split at hv
      · cases hv
      · cases hv
        exact ⟨hrevise, hstatus ▸ not_busy_of_mem hstatuses⟩
    · exact absurd (hfound ⟨a, hmem⟩) hnot

theorem exclusive_updateRecipients {recipients : List String}
    (hallow : Owner.Allows l (.store (.updateRecipients id recipients)))
    (hcall : w.store.Calls F X (.updateRecipients id recipients) r w'.store)
    (hslots : w'.slots = w.slots) :
    Owner.Offers l (.store (.updateRecipients id recipients)) r ∧
      Exclusive w' (before ++ Owner.track l (.store (.updateRecipients id recipients)) r :: after) := by
  obtain ⟨a, hmem⟩ := hallow
  have hfound := h.found (mem_append_right _ mem_cons_self) hmem
  rcases updateRecipients_effect hcall with
    ⟨e, v, he, hcompliance, hrevise, hstatus, -, rfl, hindex⟩ | ⟨-, -, hnot⟩
  swap; · exact absurd hfound hnot
  refine ⟨fun _ => ⟨_, rfl⟩, h.reindex hslots ?_ ?_ ?_⟩
  · rw [hindex]
    refine h.tidy.update (fun _ hv => ?_) fun _ hv hsieve => ?_
    · cases hv
      exact hrevise.messageID.trans (h.tidy.keyed id e he)
    · cases hv
      exact hstatus.trans (h.tidy.sieve id e he hsieve)
  · rintro k status hbusy ⟨e₁, he₁, rfl, hc₁⟩
    by_cases hk : k = id
    · subst hk
      rw [he] at he₁
      cases he₁
      refine ⟨v, by rw [hindex, update_self], hstatus, ?_⟩
      unfold JournalEntry.meta at hcompliance ⊢
      rwa [hrevise.metadata]
    · exact ⟨e₁, by rw [hindex, update_of_ne hk, he₁], rfl, hc₁⟩
  · intro k e₁ he₁ hbusy
    by_cases hk : k = id
    · subst hk
      rw [hindex, update_self] at he₁
      cases he₁
      exact ⟨e, he, hstatus ▸ hbusy⟩
    · rw [hindex, update_of_ne hk] at he₁
      exact ⟨e₁, he₁, hbusy⟩

/-- The answers to what the monitor lets pass keep the invariant, and are as the
monitor reckons. -/
theorem exclusive_store {op : Op} (hallow : Owner.Allows l (.store op))
    (hcall : w.store.Calls F X op r w'.store)
    (hslots : w'.slots = w.slots) :
    Owner.Offers l (.store op) r ∧
      Exclusive w' (before ++ Owner.track l (.store op) r :: after) := by
  cases op with
  | transition id fromStatus toStatus => exact exclusive_transition h hallow hcall hslots
  | updateStatus id status errorMsg => exact exclusive_updateStatus h hallow hcall hslots
  | updateRecipients id recipients => exact exclusive_updateRecipients h hallow hcall hslots
  | storeWithReceipt e receipts =>
    exact ⟨trivial, h.passive hslots (storeWithReceipt_passive h.tidy hallow.1 hallow.2 hcall)⟩
  | storeNotification source key child =>
    exact ⟨trivial, h.passive hslots 
      (storeNotification_passive h.tidy hallow.2.2.1 hallow.2.1 hallow.2.2.2 hcall)⟩
  | finishScheduled receiptID user cancel now =>
    exact ⟨trivial, h.passive hslots (finishScheduled_passive h.tidy hcall)⟩
  | releaseHeld id actor => exact ⟨trivial, h.passive hslots (releaseHeld_passive h.tidy hcall)⟩
  | releaseCompliance id actor reason child =>
    exact ⟨trivial, h.passive hslots (releaseCompliance_passive h.tidy hallow hcall)⟩
  | _ => exact hallow.elim

theorem exclusive_answers {q : QueueQuery} {r : q.Reply} (hallow : Owner.Allows l q)
    (hanswer : w.Answers F X q r w') :
    Owner.Offers l q r ∧ Exclusive w' (before ++ Owner.track l q r :: after) := by
  cases q with
  | store op => exact exclusive_store h hallow hanswer.1 hanswer.2
  | get id =>
    obtain ⟨-, rfl⟩ := hanswer
    exact ⟨trivial, h⟩
  | listByStatus status tier =>
    obtain ⟨-, rfl⟩ := hanswer
    exact ⟨trivial, h⟩
  | send ch msg =>
    refine ⟨trivial, ?_⟩
    change SendReply at r
    cases r with
    | sent =>
      obtain ⟨-, rfl⟩ := hanswer
      exact h.send hallow
    | full => obtain rfl := hanswer; exact h
    | shutdown => obtain rfl := hanswer; exact h
  | _ =>
    obtain rfl := hanswer
    exact ⟨trivial, h⟩

end

end Answers

theorem exclusive_invariant :
    Invariant (queueDynamics F X qm) owner Exclusive fun l => l = [] where
  act h hallow hanswer := exclusive_answers h hallow hanswer
  leave h hfree := by
    subst hfree
    exact h.leave
  enter h henter := by
    obtain ⟨l, henter, rfl⟩ := henter
    refine ⟨h.enter henter, (owner_of_tally (henter.spec h.slots_not_sieve)).mono ?_⟩
    rintro _ _ ⟨l', rfl, hhand⟩
    exact hhand

/-- The marks of the delivery loop of a message. -/
def QueueQuery.InLoop (id : String) : QueueQuery → Prop
  | .beginAttempt id' _ => id' = id
  | .endAttempt id' _ _ => id' = id
  | _ => False

/-- **Each message in delivery has one owner.** In every run of the parties from
a store at rest, a message in status queued or processing is held exactly once:
by a slot of a channel, or in the hand of one party.  Two parties never have
the same message in hand, and one that is in the delivery loop of a message
has it in hand, in processing. -/
theorem one_owner {w₀ w : World α} (hrest : w₀.AtRest) {ts : List (Thread queueSignature _)}
    (hrun : Reaches (queueDynamics F X qm) owner ⟨w₀, []⟩ ⟨w, ts⟩) :
    (∀ id e, w.store.index id = some e → Busy e.status →
      (w.holders (ts.map Thread.ghost)).count id = 1) ∧
    (∀ id ∈ w.holders (ts.map Thread.ghost),
      ∃ e, w.store.index id = some e ∧ Busy e.status) ∧
    (ts.map Thread.ghost).Pairwise (fun l l' => ∀ x ∈ l, ∀ x' ∈ l', x.1 ≠ x'.1) ∧
    ∀ l q k, ⟨l, .ask q k⟩ ∈ ts → ∀ id, q.InLoop id → (id, "processing") ∈ l := by
  have hsafe := exclusive_invariant.reaches
    (P := ⟨w₀, []⟩) ⟨exclusive_atRest hrest, fun t ht => by cases ht⟩ hrun
  have h : Exclusive w (ts.map Thread.ghost) := hsafe.inv
  refine ⟨fun id e he hbusy => ?_, fun id hid => ?_, ?_, fun l q k ht id hq => ?_⟩
  · exact count_eq_one_of_mem h.nodup (h.covered id e he hbusy)
  · obtain ⟨status, hbusy, e, he, rfl, -⟩ := h.holds hid
    exact ⟨e, he, hbusy⟩
  · have hdisjoint := (nodup_append.mp h.nodup).2.1
    rw [handIDs, map_flatten, nodup_flatten, pairwise_map] at hdisjoint
    refine hdisjoint.2.imp fun {l l'} hd x hx x' hx' heq => ?_
    exact hd (mem_map.mpr ⟨x, hx, rfl⟩) (mem_map.mpr ⟨x', hx', heq.symm⟩)
  · have hallow : Owner.Allows l q := hsafe.allows ht
    cases q with
    | beginAttempt id' rcpt => exact hq ▸ hallow
    | endAttempt id' rcpt err => exact hq ▸ hallow
    | _ => exact hq.elim

/-! ### A run -/

/-- The journal takes what the plan writes, as a test. -/
def Plan.journals (F : JournalFormat α) (env : Env) (s : MessageStore α) : Plan → Bool
  | .write e _ _ _ => (s.journal.write F env.io env.recordUUID e).1.isOk
  | .batch es _ _ _ => (s.journal.writeBatch F env.io env.recordUUID es).1.isOk
  | _ => true

theorem Plan.journalled_of_journals {env : Env} {s : MessageStore α} {plan : Plan}
    (h : plan.journals F env s = true) : plan.Journalled F env s := by
  cases plan with
  | write e context publish a =>
    rcases hw : s.journal.write F env.io env.recordUUID e with ⟨err | e', j⟩
    · simp only [journals, hw] at h
      cases h
    · exact ⟨e', j, hw⟩
  | batch es context publish a =>
    rcases hw : s.journal.writeBatch F env.io env.recordUUID es with ⟨err | e', j⟩
    · simp only [journals, hw] at h
      cases h
    · exact ⟨e', j, hw⟩
  | _ => trivial

/-- A calm store and free slots; the other answers are given. -/
def calmAnswer (F : JournalFormat α) (X : Externals) (replies : (q : QueueQuery) → q.Reply)
    (w : World α) : (q : QueueQuery) → Option (q.Reply × World α)
  | .store op =>
    let (r, s) := w.store.call F X (calmEnv []) op
    if (op.plan X (calmEnv []) w.store).journals F (calmEnv []) w.store then
      some (r, { w with store := s })
    else none
  | .get id => some (get w.store id, w)
  | .listByStatus .. => none
  | .send ch msg =>
    if (w.slots ch).length < ch.capacity then
      some (SendReply.sent,
        { w with slots := update w.slots ch (w.slots ch ++ [msg]) })
    else none
  | q => some (replies q, w)

theorem calmAnswer_sound {replies : (q : QueueQuery) → q.Reply} {q : QueueQuery} {r : q.Reply}
    (h : calmAnswer F X replies w q = some (r, w')) : w.Answers F X q r w' := by
  cases q with
  | store op =>
    simp only [calmAnswer] at h
    split at h
    · next hj =>
      cases h
      exact ⟨⟨calmEnv [], Plan.journalled_of_journals hj, rfl⟩, rfl⟩
    · cases h
  | get id => cases h; exact ⟨rfl, rfl⟩
  | listByStatus status tier => cases h
  | send ch msg =>
    simp only [calmAnswer] at h
    split at h
    · next hfree => cases h; exact ⟨hfree, rfl⟩
    · cases h
  | _ => cases h; rfl

def calmOracle (F : JournalFormat α) (X : Externals) (qm : QueueManager)
    (replies : (q : QueueQuery) → q.Reply) : Oracle (queueDynamics F X qm) where
  answer := calmAnswer F X replies
  sound := calmAnswer_sound

/-- An empty store and empty channels. -/
def emptyWorld : World JournalEntry := ⟨MessageStore.init "journal-1.log" noLimits, fun _ => []⟩

theorem emptyWorld_atRest : emptyWorld.AtRest where
  tidy := ⟨fun _ _ h => (nomatch h), fun _ _ h => (nomatch h)⟩
  idle := fun _ _ h => (nomatch h)
  slots := fun _ => rfl

/-- A worker takes the first message of a channel. -/
def startWorker (qm : QueueManager) (ch : Channel)
    (P : Pool queueSignature (World α) (List Holding)) :
    Pool queueSignature (World α) (List Holding) :=
  match P.world.slots ch with
  | [] => P
  | msg :: rest => ⟨{ P.world with slots := update P.world.slots ch rest },
      ⟨[(msg.id, "queued")], qm.processMessage msg⟩ :: P.threads⟩

theorem reaches_startWorker (ch : Channel) (P : Pool queueSignature (World α) (List Holding)) :
    Reaches (queueDynamics F X qm) owner P (startWorker qm ch P) := by
  unfold startWorker
  split
  · exact .refl
  · next msg rest hslot => exact .single (.enter ⟨_, .worker hslot, rfl⟩)

def bareOracle : Oracle (queueDynamics recordFormat bareExternals bareManager) :=
  calmOracle recordFormat bareExternals bareManager noDomains

/-- A message is accepted and put on its channel. -/
def acceptedPool : Pool queueSignature (World JournalEntry) (List Holding) :=
  Pool.advance bareOracle owner 0 8
    ⟨emptyWorld, [⟨[], bareManager.enqueue notice >>= fun _ => pure ()⟩]⟩

/-- A worker has it in processing. -/
def workedPool : Pool queueSignature (World JournalEntry) (List Holding) :=
  (startWorker bareManager .out acceptedPool).advance bareOracle owner 0 2

/-- The message is in processing, and its worker is its one holder. -/
theorem one_owner_worked :
    (workedPool.world.store.index "m2").map JournalEntry.status = some "processing" ∧
      (workedPool.world.holders (workedPool.threads.map Thread.ghost)).count "m2" = 1 := by
  have haccepted : Reaches (queueDynamics recordFormat bareExternals bareManager) owner
      ⟨emptyWorld, []⟩ acceptedPool :=
    .head (.enter ⟨_, .enqueue notice ⟨by decide, by simp [notice], by simp [notice]⟩, rfl⟩)
      (reaches_advance bareOracle 0 8 _)
  have hworked := (haccepted.trans (reaches_startWorker .out _)).trans
    (reaches_advance bareOracle 0 2 _)
  exact ⟨rfl, (one_owner emptyWorld_atRest hworked).1 "m2" _ rfl (.inr rfl)⟩

end EmailService
