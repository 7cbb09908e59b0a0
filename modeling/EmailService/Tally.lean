/-
EmailService/Tally.lean

What the calls of a party say about the messages it has in hand.

The monitor `owner` keeps, from a party's own calls, the messages it has taken
over and not yet passed on.  `tally` adds what a worker does with the message
it was given: which recipients are stored for it, which ones are kept for a
retry, which ones are still to come, and what the last call on the message has
left in the index.

The specifications say once what every party does under these eyes.  A worker
stores, at each checkpoint, the kept recipients and those to come, and after
the call that gives the message away it asks nothing more.
-/
import EmailService.System

namespace EmailService

open GoStrings Program List Option Prod

/-! ### What a party has in hand -/

/-- A message taken over, and the status it was given. -/
abbrev Holding := String × String

/-- The holdings without a message. -/
def without (l : List Holding) (id : String) : List Holding := l.filter fun h => h.1 ≠ id

variable {l : List Holding} {id : String} {r : Except String Answer} {op : Op}

theorem mem_without {h : Holding} : h ∈ without l id ↔ h ∈ l ∧ h.1 ≠ id := by
  simp [without]

theorem without_of_notMem (h : ∀ x ∈ l, x.1 ≠ id) : without l id = l :=
  filter_eq_self.mpr fun x hx => decide_eq_true (h x hx)

theorem without_cons_self {status : String} : without ((id, status) :: l) id = without l id := by
  simp [without]

def Owner.track (l : List Holding) : (q : QueueQuery) → q.Reply → List Holding
  | .store (.transition id _ toStatus), .ok (.flag true) =>
    if Busy toStatus then (id, toStatus) :: without l id else without l id
  | .store (.updateStatus id _ _), .ok _ =>
    if hasPrefix id "sieve-" then l else without l id
  | .send _ msg, .sent => without l msg.id
  | _, _ => l

/-- One takes a pending message, moves on or gives back what one has in hand,
and marks attempts only on what one has in processing. -/
def Owner.Allows (l : List Holding) : QueueQuery → Prop
  | .store (.transition id fromStatus toStatus) =>
    (fromStatus = "pending" ∧ toStatus = "queued") ∨
    ((id, fromStatus) ∈ l ∧ fromStatus = "queued" ∧
      (toStatus = "processing" ∨ toStatus = "pending"))
  | .store (.updateStatus id status _) =>
    (status = "delivered" ∧ hasPrefix id "sieve-" = true) ∨
    ((∃ a, (id, a) ∈ l) ∧ status ∈ ["pending", "delivered", "failed"])
  | .store (.updateRecipients id _) => ∃ a, (id, a) ∈ l
  | .store (.storeWithReceipt e receipts) => Plain e ∧ ∀ r, some r ∈ receipts → Plain r
  | .store (.storeNotification _ _ child) => child.messageID ≠ "" ∧ child.transaction = [] ∧
      hasPrefix child.messageID "sieve-" = false ∧
      (child.status = "delivered" ∨ child.status = "pending")
  | .store (.finishScheduled ..) => True
  | .store (.releaseHeld ..) => True
  | .store (.releaseCompliance _ _ _ child) => ∀ c ∈ child, c.transaction = []
  | .store _ => False
  | .send _ msg => (msg.id, "queued") ∈ l
  | .beginAttempt id _ => (id, "processing") ∈ l
  | .endAttempt id _ _ => (id, "processing") ∈ l
  | _ => True

/-- Calls on what one has in hand succeed; what is pending is in nobody's hand. -/
def Owner.Offers (l : List Holding) : (q : QueueQuery) → q.Reply → Prop
  | .store (.transition id fromStatus _), r =>
    ((id, fromStatus) ∈ l → granted r = true) ∧
    (fromStatus = "pending" → granted r = true →
      (∀ h ∈ l, h.1 ≠ id) ∧ hasPrefix id "sieve-" = false)
  | .store (.updateStatus id _ _), r => (∃ a, (id, a) ∈ l) → ∃ x, r = Except.ok x
  | .store (.updateRecipients id _), r => (∃ a, (id, a) ∈ l) → ∃ x, r = Except.ok x
  | _, _ => True

def owner : Monitor queueSignature (List Holding) where
  track := Owner.track
  Offers := Owner.Offers
  Allows := Owner.Allows

theorem granted_eq (h : granted r = true) : r = .ok (.flag true) := by
  unfold granted at h
  split at h
  · rfl
  · cases h

/-- A transition that was not made changes nothing in hand. -/
theorem ownerTrack_of_not_granted {fromStatus toStatus : String} (h : granted r = false) :
    Owner.track l (.store (.transition id fromStatus toStatus)) r = l := by
  rcases r with err | _ | ⟨_ | _⟩ | x | n
  · rfl
  · rfl
  · rfl
  · cases h
  · rfl
  · rfl

theorem ownerAllows_aside {q : QueueQuery} (hq : Aside q) : Owner.Allows l q := by
  cases q with
  | store op =>
    cases op with
    | storeWithReceipt e receipts => exact hq
    | storeNotification source key child => exact hq
    | updateStatus id status errorMsg => exact .inl hq
    | _ => exact hq.elim
  | send => exact hq.elim
  | beginAttempt => exact hq.elim
  | endAttempt => exact hq.elim
  | _ => trivial

/-- Store calls on the side leave the hand alone. -/
theorem ownerTrack_aside (hq : Aside (.store op)) (r : Except String Answer) :
    Owner.track l (.store op) r = l := by
  cases op with
  | storeWithReceipt e receipts => rfl
  | storeNotification source key child => rfl
  | updateStatus id status errorMsg =>
    cases r with
    | error err => rfl
    | ok x => exact if_pos hq.2
  | _ => exact hq.elim

/-! ### What a worker does with its message -/

structure Tally where
  hand : List Holding := []
  /-- the message a worker was given, and the recipients stored for it -/
  book : Option (String × List String) := none
  /-- the recipients that errored or were throttled -/
  kept : List String := []
  /-- the recipients not attempted yet -/
  rest : List String := []
  /-- past the pause of the sender and the limiter -/
  entered : Bool := false
  /-- once the message is out of hand, the recipients left stored for it, if it
  was not removed -/
  left : Option (Option (List String)) := none

/-- The tally a worker starts with. -/
def Tally.start (msg : Message) : Tally :=
  { hand := [(msg.id, "queued")], book := some (msg.id, msg.toAddrs), rest := msg.toAddrs }

/-- The operation takes its message out of the index. -/
def Op.removes : Op → Bool
  | .updateStatus _ status _ => Terminal status
  | _ => false

/-- The recipients stored for a message after a store call. -/
def Op.stores (op : Op) (id : String) (stored : List String) (r : Except String Answer) :
    List String :=
  match op, r with
  | .updateRecipients id' recipients, .ok _ => if id' = id then recipients else stored
  | _, _ => stored

def Tally.trackStore (l : Tally) (op : Op) (r : Except String Answer) : Tally :=
  let hand := Owner.track l.hand (.store op) r
  match l.book with
  | none => { l with hand := hand }
  | some (id, stored) =>
    let stored := op.stores id stored r
    { l with
      hand := hand
      book := some (id, stored)
      left := if id ∈ hand.map fst then l.left
        else some (if op.removes then none else some stored) }

def Tally.track (l : Tally) : (q : QueueQuery) → q.Reply → Tally
  | .store op, r => l.trackStore op r
  | .send _ msg, .sent => { l with hand := without l.hand msg.id }
  | .wait _, none => { l with entered := true }
  | .acquire _, false => { l with kept := l.kept ++ l.rest.take 1, rest := l.rest.tail }
  | .endAttempt _ _ err, _ =>
    { l with
      kept := if err.isSome then l.kept ++ l.rest.take 1 else l.kept
      rest := l.rest.tail }
  | _, _ => l

/-- The recipient of an attempt is the next one, and what is stored at a
checkpoint is what is left to do.  The requests of operators and of the
scheduler do not come from workers, and a worker does not send its message. -/
def Tally.Keeps (l : Tally) : QueueQuery → Prop
  | .beginAttempt id rcpt => l.book.map fst = some id ∧ l.rest.head? = some rcpt
  | .store (.updateRecipients id recipients) =>
    l.book.map fst = some id ∧ recipients = l.kept ++ l.rest
  | .store (.finishScheduled ..) => l.book = none
  | .store (.releaseHeld ..) => l.book = none
  | .store (.releaseCompliance ..) => l.book = none
  | .send _ msg => l.book.map fst ≠ some msg.id
  | _ => True

def tally : Monitor queueSignature Tally where
  track := Tally.track
  Offers l := Owner.Offers l.hand
  Allows l q := l.left = none ∧ Owner.Allows l.hand q ∧ l.Keeps q

/-- The hand is kept as by `owner`. -/
theorem track_hand (l : Tally) (q : QueueQuery) (r : q.Reply) :
    (l.track q r).hand = Owner.track l.hand q r := by
  cases q with
  | store op =>
    show (l.trackStore op r).hand = _
    unfold Tally.trackStore
    cases l.book <;> rfl
  | send ch msg => change SendReply at r; cases r <;> rfl
  | wait tier => change Option String at r; cases r <;> rfl
  | acquire domain => change Bool at r; cases r <;> rfl
  | _ => rfl

/-- The message of one's own is always the same. -/
theorem track_book (l : Tally) (q : QueueQuery) (r : q.Reply) :
    (l.track q r).book.map fst = l.book.map fst := by
  cases q with
  | store op =>
    show (l.trackStore op r).book.map fst = _
    unfold Tally.trackStore
    cases l.book <;> rfl
  | send ch msg => change SendReply at r; cases r <;> rfl
  | wait tier => change Option String at r; cases r <;> rfl
  | acquire domain => change Bool at r; cases r <;> rfl
  | _ => rfl

/-- A message of one's own is still in hand. -/
structure Tally.Steady (l : Tally) : Prop where
  open_ : l.left = none
  own : ∀ id stored, l.book = some (id, stored) → id ∈ l.hand.map fst

/-- Nothing has changed in the end. -/
def Tally.Same (l l' : Tally) : Prop := l.Steady ∧ l' = l

/-- A store call that is no checkpoint and leaves one's message in hand. -/
theorem trackStore_eq {l : Tally} (hstores : ∀ id stored, op.stores id stored r = stored)
    (hown : ∀ id stored, l.book = some (id, stored) → id ∈
      (Owner.track l.hand (.store op) r).map fst) :
    l.trackStore op r = { l with hand := Owner.track l.hand (.store op) r } := by
  unfold Tally.trackStore
  rcases hbook : l.book with - | ⟨id, stored⟩
  · rfl
  · simp only [hstores, if_pos (hown id stored hbook), ← hbook]

theorem trackStore_same {l : Tally} (hl : l.Steady)
    (hstores : ∀ id stored, op.stores id stored r = stored)
    (hhand : Owner.track l.hand (.store op) r = l.hand) : l.trackStore op r = l := by
  rw [trackStore_eq hstores (by rw [hhand]; exact hl.own), hhand]

/-! ### Taking over, giving away, handing over -/

section Specs

variable {l : Tally} {qm : QueueManager} {msg : Message}

/-- Taking a pending message. -/
theorem take_tally (hl : l.Steady) (id : String) :
    Spec tally (tryTransition id "pending" "queued") l fun owned l' =>
      (owned = false ∧ l' = l) ∨ (owned = true ∧ l' = { l with hand := (id, "queued") :: l.hand } ∧
        without l.hand id = l.hand ∧ hasPrefix id "sieve-" = false) := by
  refine spec_tryTransition ⟨hl.open_, .inl ⟨rfl, rfl⟩, trivial⟩ fun r hoffer => ?_
  by_cases hr : granted r = true
  · obtain ⟨hfree, hsieve⟩ := hoffer.2 rfl hr
    have hwithout := without_of_notMem hfree
    obtain rfl := granted_eq hr
    have hhand : Owner.track l.hand (.store (.transition id "pending" "queued"))
        (.ok (.flag true)) = (id, "queued") :: l.hand := by
      show (id, "queued") :: without l.hand id = _
      rw [hwithout]
    refine .inr ⟨rfl, ?_, hwithout, hsieve⟩
    show l.trackStore _ _ = _
    rw [trackStore_eq (fun _ _ => rfl), hhand]
    intro own stored hbook
    rw [hhand]
    exact mem_cons_of_mem _ (hl.own own stored hbook)
  · have hr := Bool.eq_false_iff.mpr hr
    exact .inl ⟨hr, trackStore_same hl (fun _ _ => rfl) (ownerTrack_of_not_granted hr)⟩

/-- Passing on a message taken over. -/
theorem setStatus_taken (hl : l.Steady) {id a : String} (hwithout : without l.hand id = l.hand)
    (hsieve : hasPrefix id "sieve-" = false) {status : String}
    (hstatus : status ∈ ["pending", "delivered", "failed"]) (errorMsg : String) :
    Spec tally (setStatus id status errorMsg) { l with hand := (id, a) :: l.hand }
      fun _ l' => l' = l := by
  refine ⟨⟨hl.open_, .inr ⟨⟨a, mem_cons_self⟩, hstatus⟩, trivial⟩,
    fun (r : Except String Answer) hoffer => ?_⟩
  obtain ⟨x, rfl⟩ := hoffer ⟨a, mem_cons_self⟩
  have hhand : Owner.track ((id, a) :: l.hand) (.store (.updateStatus id status errorMsg))
      (.ok x) = l.hand := by
    show (if hasPrefix id "sieve-" then _ else without ((id, a) :: l.hand) id) = _
    rw [hsieve, without_cons_self, hwithout]
    rfl
  show Tally.trackStore _ _ _ = _
  rw [trackStore_eq (fun _ _ => rfl), hhand]
  intro own stored hbook
  rw [hhand]
  exact hl.own own stored hbook

theorem handOver_tally (hl : l.Steady) (tier : String) (msg : Message) :
    Spec tally (handOver tier msg) l fun _ l' => l' = l := by
  refine (take_tally hl msg.id).bind fun owned l₁ htaken => ?_
  rcases htaken with ⟨rfl, rfl⟩ | ⟨rfl, rfl, hwithout, hsieve⟩
  · rfl
  · have hother : l.book.map fst ≠ some msg.id := by
      intro hbook
      obtain ⟨⟨id, stored⟩, hbook, rfl⟩ := map_eq_some_iff.mp hbook
      have hmem := hl.own _ _ hbook
      rw [← hwithout] at hmem
      obtain ⟨x, hx, hid⟩ := mem_map.mp hmem
      exact (mem_without.mp hx).2 hid
    refine spec_ask ⟨hl.open_, mem_cons_self, hother⟩ fun (reply : SendReply) _ => ?_
    cases reply with
    | sent =>
      show { l with hand := without ((msg.id, "queued") :: l.hand) msg.id } = l
      rw [without_cons_self, hwithout]
    | full =>
      exact (setStatus_taken hl hwithout hsieve (by decide) _).bind fun _ _ h => h
    | shutdown =>
      exact (setStatus_taken hl hwithout hsieve (by decide) _).bind fun _ _ h => h

theorem tally_sideways : Sideways tally Tally.Same where
  trans h h' := ⟨h.1, h'.2.trans h.2⟩
  self h := ⟨h.2 ▸ h.1, rfl⟩
  query l q hl hq := by
    refine ⟨⟨hl.1.open_, ownerAllows_aside hq, ?_⟩, fun r _ => ⟨hl.1, ?_⟩⟩
    · cases q with
      | store op => cases op <;> trivial
      | beginAttempt => exact hq.elim
      | send => exact hq.elim
      | _ => trivial
    · cases q with
      | store op =>
        refine trackStore_same hl.1 ?_ (ownerTrack_aside hq r)
        cases op <;> first | exact fun _ _ => rfl | exact hq.elim
      | send => exact hq.elim
      | wait => exact hq.elim
      | acquire => exact hq.elim
      | endAttempt => exact hq.elim
      | _ => rfl
  handOver l tier msg hl _ := (handOver_tally hl.1 tier msg).mono fun _ _ h => ⟨hl.1, h⟩

/-! ### The scheduler and the operators -/

/-- The same for a party without a message of its own. -/
def Tally.Idle (l l' : Tally) : Prop := l.Same l' ∧ l.book = none

theorem idle_sideways : Sideways tally Tally.Idle :=
  tally_sideways.restrict _ fun h hbook => h.2 ▸ hbook

theorem giveUp_quiet (entry : JournalEntry) : Quiet tally Tally.Idle (qm.giveUp entry) := by
  rintro l ⟨⟨hl, -⟩, hbook⟩
  refine (take_tally hl entry.messageID).bind fun owned l₁ htaken => ?_
  rcases htaken with ⟨rfl, rfl⟩ | ⟨rfl, rfl, hwithout, hsieve⟩
  · exact ⟨trivial, ⟨hl, rfl⟩, hbook⟩
  · have hl₁ : Tally.Steady { l with hand := (entry.messageID, "queued") :: l.hand } :=
      ⟨hl.open_, fun id stored hbook => mem_cons_of_mem _ (hl.own id stored hbook)⟩
    refine ((qm.generateBounce_side tally_sideways _ _) _ ⟨hl₁, rfl⟩).bind fun err l₂ h₂ => ?_
    obtain rfl := h₂.2.2
    cases err <;> exact (setStatus_taken hl hwithout hsieve (by decide) _).bind
      fun _ _ h => ⟨trivial, ⟨hl, h⟩, hbook⟩

/-- A store call that concerns neither what is in hand nor a checkpoint. -/
theorem askStore_quiet {op : Op} (hallow : ∀ hand, Owner.Allows hand (.store op))
    (hkeeps : ∀ l : Tally, l.book = none → l.Keeps (.store op))
    (hhand : ∀ hand r, Owner.track hand (.store op) r = hand)
    (hstores : ∀ id stored r, op.stores id stored r = stored) :
    Quiet tally Tally.Idle (askStore op) := by
  rintro l ⟨⟨hl, -⟩, hbook⟩
  refine ⟨⟨hl.open_, hallow _, hkeeps l hbook⟩, fun r _ => ⟨trivial, ⟨hl, ?_⟩, hbook⟩⟩
  exact trackStore_same hl (fun id stored => hstores id stored r) (hhand _ r)

theorem idle_errands : Errands qm tally Tally.Idle where
  toSideways := idle_sideways
  finishScheduled _ _ _ _ :=
    askStore_quiet (fun _ => trivial) (fun _ h => h) (fun _ _ => rfl) fun _ _ _ => rfl
  releaseHeld _ _ :=
    askStore_quiet (fun _ => trivial) (fun _ h => h) (fun _ _ => rfl) fun _ _ _ => rfl
  releaseCompliance _ _ _ child hchild :=
    askStore_quiet (by rintro _ c ⟨rfl⟩; exact hchild) (fun _ h => h) (fun _ _ => rfl)
      fun _ _ _ => rfl
  handOverAny tier msg _ hl :=
    (handOver_tally hl.1.1 tier msg).mono fun _ _ h => ⟨trivial, ⟨hl.1.1, h⟩, hl.2⟩
  giveUp := giveUp_quiet

/-! ### A worker -/

/-- A worker with its message in hand. -/
def Tally.working (msg : Message) (status : String) (stored kept rest : List String)
    (entered : Bool) : Tally :=
  { hand := [(msg.id, status)], book := some (msg.id, stored), kept := kept, rest := rest,
    entered := entered }

/-- The worker has given its message away. -/
def Tally.away (msg : Message) (stored kept rest : List String) (entered : Bool)
    (left : Option (List String)) : Tally :=
  { hand := [], book := some (msg.id, stored), kept := kept, rest := rest, entered := entered,
    left := some left }

section Worker

variable {status : String} {stored kept rest : List String} {entered : Bool}

theorem steady_working : (Tally.working msg status stored kept rest entered).Steady := by
  refine ⟨rfl, fun id stored' hbook => ?_⟩
  cases hbook
  exact mem_singleton_self _

theorem same_working : Tally.Same (Tally.working msg status stored kept rest entered)
    (Tally.working msg status stored kept rest entered) :=
  ⟨steady_working, rfl⟩

variable {op : Op} {r : Except String Answer} {newStatus : String} {recipients : List String}
  {γ : Type}

/-- A call after which the message is still in hand. -/
theorem trackStore_working (hstores : op.stores msg.id stored r = recipients)
    (hhand : Owner.track [(msg.id, status)] (.store op) r = [(msg.id, newStatus)]) :
    (Tally.working msg status stored kept rest entered).trackStore op r =
      Tally.working msg newStatus recipients kept rest entered := by
  unfold Tally.trackStore Tally.working
  simp only [hstores, hhand, map_cons, mem_cons, true_or, if_true]

/-- A call after which it is not. -/
theorem trackStore_away (hstores : op.stores msg.id stored r = stored)
    (hhand : Owner.track [(msg.id, status)] (.store op) r = []) :
    (Tally.working msg status stored kept rest entered).trackStore op r =
      Tally.away msg stored kept rest entered (if op.removes then none else some stored) := by
  unfold Tally.trackStore Tally.working Tally.away
  simp only [hstores, hhand, map_nil, not_mem_nil, if_false]

/-- The message moves to processing. -/
theorem begin_tally :
    Spec tally (tryTransition msg.id "queued" "processing")
      (Tally.working msg "queued" stored kept rest entered) fun owned l' =>
      owned = true ∧ l' = Tally.working msg "processing" stored kept rest entered := by
  refine spec_tryTransition ⟨rfl, .inr ⟨mem_cons_self, rfl, .inl rfl⟩, trivial⟩
    fun r hoffer => ?_
  obtain rfl := granted_eq (hoffer.1 mem_cons_self)
  exact ⟨rfl, trackStore_working rfl (congrArg _ (without_cons_self (l := [])))⟩

theorem giveBack_tally {b : γ} :
    Spec tally (do
      let _ ← tryTransition msg.id "queued" "pending"
      pure b) (Tally.working msg "queued" stored kept rest entered) fun r l' =>
      r = b ∧ l' = Tally.away msg stored kept rest entered (some stored) := by
  refine .bind (Q := fun _ l' => l' = .away msg stored kept rest entered (some stored))
    (spec_tryTransition ⟨rfl, .inr ⟨mem_cons_self, rfl, .inr rfl⟩, trivial⟩
      fun r hoffer => ?_) fun _ _ h => ⟨rfl, h⟩
  obtain rfl := granted_eq (hoffer.1 mem_cons_self)
  exact trackStore_away rfl (without_cons_self (l := []))

theorem setStatus_tally (hsieve : hasPrefix msg.id "sieve-" = false)
    (hstatus : newStatus ∈ ["pending", "delivered", "failed"]) (errorMsg : String) :
    Spec tally (setStatus msg.id newStatus errorMsg)
      (Tally.working msg status stored kept rest entered) fun r l' =>
      (∃ x, r = .ok x) ∧ l' = Tally.away msg stored kept rest entered
        (if Terminal newStatus then none else some stored) := by
  refine ⟨⟨rfl, .inr ⟨⟨status, mem_cons_self⟩, hstatus⟩, trivial⟩,
    fun (r : Except String Answer) hoffer => ?_⟩
  obtain ⟨x, rfl⟩ := hoffer ⟨status, mem_cons_self⟩
  refine ⟨⟨x, rfl⟩, ?_⟩
  refine (trackStore_away rfl ?_).trans ?_
  · show (if hasPrefix msg.id "sieve-" then _ else without [(msg.id, status)] msg.id) = _
    rw [hsieve, without_cons_self]
    rfl
  · simp only [Op.removes, decide_eq_true_eq]

/-- A checkpoint. -/
theorem checkpoint_tally {f : Except String Answer → Queue γ} {Q : γ → Tally → Prop}
    (hrecipients : recipients = kept ++ rest)
    (h : ∀ x, Spec tally (f (.ok x)) (Tally.working msg status (kept ++ rest) kept rest entered)
      Q) :
    Spec tally (askStore (.updateRecipients msg.id recipients) >>= f)
      (Tally.working msg status stored kept rest entered) Q := by
  refine spec_ask ⟨rfl, ⟨status, mem_cons_self⟩, rfl, hrecipients⟩
    fun (r : Except String Answer) hoffer => ?_
  obtain ⟨x, rfl⟩ := hoffer ⟨status, mem_cons_self⟩
  have htrack : tally.track (.working msg status stored kept rest entered)
      (.store (.updateRecipients msg.id recipients)) (.ok x) =
      .working msg status (kept ++ rest) kept rest entered :=
    trackStore_working ((if_pos rfl).trans hrecipients) rfl
  rw [htrack]
  exact h x

/-- The message is given away as it should be: it is removed just if nobody is
left, and otherwise those left are stored. -/
def Tally.Done (msg : Message) (l : Tally) : Prop :=
  ∃ stored kept rest entered left, l = .away msg stored kept rest entered left ∧
    (left = none ↔ kept ++ rest = [] ∧ entered = true) ∧
    ∀ recipients, left = some recipients → recipients = kept ++ rest

theorem done_kept (hstored : stored = kept ++ rest)
    (hnot : ¬ (kept ++ rest = [] ∧ entered = true)) :
    Tally.Done msg (.away msg stored kept rest entered (some stored)) := by
  refine ⟨_, _, _, _, _, rfl, ⟨fun h => ?_, fun h => absurd h hnot⟩, fun recipients h => ?_⟩
  · cases h
  · cases h
    exact hstored

theorem finalizeDelivery_tally (hsieve : hasPrefix msg.id "sieve-" = false) {err : Option String}
    (herr : err = none ↔ kept ++ rest = []) (recipients : List String) :
    Spec tally (QueueManager.finalizeDelivery { msg with toAddrs := recipients } err)
      (.working msg status (kept ++ rest) kept rest true) fun _ l' => l'.Done msg := by
  cases err with
  | some err =>
    refine (setStatus_tally hsieve (by decide) _).bind fun _ l' h => ?_
    rw [h.2]
    exact done_kept rfl fun h => some_ne_none _ (herr.mpr h.1)
  | none =>
    refine (setStatus_tally hsieve (by decide) _).bind fun r l' h => ?_
    obtain ⟨⟨x, rfl⟩, rfl⟩ := h
    refine ⟨_, _, _, _, _, rfl, ⟨fun _ => ⟨herr.mp rfl, rfl⟩, fun _ => rfl⟩, fun _ h => ?_⟩
    cases h

/-- A throttled recipient is kept. -/
theorem acquire_tally (rcpt : String) :
    Spec tally (qm.acquire rcpt) (Tally.working msg status stored kept (rcpt :: rest) entered)
      fun acquired l' => l' = if acquired then .working msg status stored kept (rcpt :: rest) entered
        else .working msg status stored (kept ++ [rcpt]) rest entered := by
  refine spec_ite (fun _ => ⟨⟨rfl, trivial, trivial⟩, fun (acquired : Bool) _ => ?_⟩) fun _ => rfl
  cases acquired <;> rfl

/-- The loop.  What is stored are the recipients kept so far and those to come;
an error is on record just if a recipient is kept. -/
theorem deliverEach_tally (started : Bool) (kept : List String) (err : Option String)
    (rcpts : List String) (herr : err = none ↔ kept = []) :
    Spec tally (qm.deliverEach msg started kept err rcpts)
      (.working msg (if started then "processing" else "queued") (kept ++ rcpts) kept rcpts true)
      fun out l' =>
        (out = none ∧ l'.Done msg) ∨
        ∃ err' status kept' rest', out = some (kept' ++ rest', err') ∧
          (err' = none ↔ kept' ++ rest' = []) ∧
          l' = .working msg status (kept' ++ rest') kept' rest' true := by
  induction rcpts generalizing started kept err with
  | nil =>
    refine .inr ⟨err, _, kept, [], ?_, ?_, rfl⟩
    · rw [append_nil]
    · rwa [append_nil]
  | cons rcpt rest ih =>
    refine (qm.paused_side tally_sideways _ _ same_working).bind fun paused l₁ h₁ => ?_
    obtain rfl := h₁.2.2
    refine spec_ite (fun _ => ?_) fun _ => ?_
    · cases started with
      | true =>
        refine .inr ⟨_, _, kept, rcpt :: rest, rfl, ⟨fun h => ?_, fun h => ?_⟩, rfl⟩
        · exact absurd (joinErr_eq_none.mp h).2 (some_ne_none _)
        · exact absurd (append_eq_nil_iff.mp h).2 (cons_ne_nil _ _)
      | false =>
        refine giveBack_tally.mono fun out l' h => .inl ⟨h.1, ?_⟩
        rw [h.2]
        exact done_kept rfl fun h => cons_ne_nil _ _ (append_eq_nil_iff.mp h.1).2
    · refine (acquire_tally rcpt).bind fun acquired l₂ h₂ => ?_
      subst h₂
      cases acquired with
      | false =>
        -- the recipient is kept: the list stored is the same, split one later
        have hsplit : kept ++ rcpt :: rest = (kept ++ [rcpt]) ++ rest := by simp
        have herr' : joinErr err (some "destination deferred") = none ↔ kept ++ [rcpt] = [] := by
          simp [joinErr_eq_none]
        show Spec tally _ (.working msg _ (kept ++ rcpt :: rest) (kept ++ [rcpt]) rest true) _
        rw [hsplit]
        exact ih started (kept ++ [rcpt]) _ herr'
      | true =>
        have howned : Spec tally (if started then pure true
            else tryTransition msg.id "queued" "processing")
            (.working msg (if started then "processing" else "queued")
              (kept ++ rcpt :: rest) kept (rcpt :: rest) true)
            fun owned l' => owned = true ∧
              l' = .working msg "processing" (kept ++ rcpt :: rest) kept (rcpt :: rest) true := by
          cases started with
          | true => exact ⟨rfl, rfl⟩
          | false => exact begin_tally
        refine howned.bind fun owned l₃ h₃ => ?_
        obtain ⟨rfl, rfl⟩ := h₃
        refine spec_ask ⟨rfl, mem_cons_self, rfl, rfl⟩ fun _ _ => ?_
        refine ((qm.attempt_side tally_sideways rcpt) _ same_working).bind fun err' l₄ h₄ => ?_
        obtain rfl := h₄.2.2
        refine (qm.release_side tally_sideways rcpt _ same_working).bind fun _ l₅ h₅ => ?_
        obtain rfl := h₅.2.2
        refine spec_ask ⟨rfl, mem_cons_self, trivial⟩ fun _ _ => ?_
        -- from here on the recipient is kept or gone
        have herr' : joinErr err err' = none ↔
            (if err'.isSome then kept ++ [rcpt] else kept) = [] := by
          cases err' <;> simp [joinErr_eq_none, herr]
        exact checkpoint_tally rfl fun x => ih true _ _ herr'

theorem deliverAll_tally (hsieve : hasPrefix msg.id "sieve-" = false) :
    Spec tally (qm.deliverAll msg) (.working msg "queued" msg.toAddrs [] msg.toAddrs true)
      fun _ l' => l'.Done msg := by
  refine (deliverEach_tally false [] none msg.toAddrs (by simp)).bind fun out l₁ hout => ?_
  rcases hout with ⟨rfl, hdone⟩ | ⟨err, status, kept, rest, rfl, herr, rfl⟩
  · exact hdone
  · exact checkpoint_tally rfl fun x => finalizeDelivery_tally hsieve herr _

/-- A worker whose message no custody rule takes over. -/
theorem processMessage_tally (hsieve : hasPrefix msg.id "sieve-" = false)
    (hcustody : qm.inCustody msg = false) :
    Spec tally (qm.processMessage msg) (.start msg) fun _ l' => l'.Done msg := by
  have hback : Spec tally (do
      let _ ← tryTransition msg.id "queued" "pending"
      pure ()) (.working msg "queued" msg.toAddrs [] msg.toAddrs false) fun _ l' => l'.Done msg :=
    giveBack_tally.mono fun _ _ h => h.2 ▸ done_kept rfl fun h => Bool.false_ne_true h.2
  unfold QueueManager.processMessage
  rw [if_neg (by rw [hcustody]; exact Bool.false_ne_true)]
  refine (qm.paused_side tally_sideways _ _ same_working).bind fun paused l₁ h₁ => ?_
  obtain rfl := h₁.2.2
  refine spec_ite (fun _ => hback) fun _ => ?_
  refine spec_ask ⟨rfl, trivial, trivial⟩ fun (err : Option String) _ => ?_
  cases err with
  | some err => exact hback
  | none => exact deliverAll_tally hsieve

/-- Nothing is in hand, and what is left of the message is what is left to do. -/
structure Tally.Over (l : Tally) : Prop where
  hand : l.hand = []
  left : ∀ recipients, l.left = some (some recipients) → recipients = l.kept ++ l.rest

theorem Tally.Done.over (h : l.Done msg) : l.Over := by
  obtain ⟨stored, kept, rest, entered, left, rfl, -, hleft⟩ := h
  exact ⟨rfl, fun recipients h => hleft recipients (some.inj h)⟩

/-- A worker whose message is taken into custody gives it away as well. -/
theorem preserve_tally (hsieve : hasPrefix msg.id "sieve-" = false) :
    Spec tally (qm.preserve msg) (.start msg) fun _ l' => l'.Over := by
  have haway : ∀ newStatus errorMsg, newStatus ∈ ["pending", "delivered", "failed"] → Spec tally (do
      let _ ← setStatus msg.id newStatus errorMsg
      pure ()) (.working msg "processing" msg.toAddrs [] msg.toAddrs false)
      fun _ l' => l'.Over := by
    refine fun newStatus errorMsg hstatus => (setStatus_tally hsieve hstatus errorMsg).bind ?_
    rintro _ l' ⟨-, rfl⟩
    refine ⟨rfl, fun recipients h => ?_⟩
    have hleft := some.inj h
    split at hleft
    · cases hleft
    · exact (some.inj hleft).symm
  refine begin_tally.bind fun owned l₁ h₁ => ?_
  obtain ⟨rfl, rfl⟩ := h₁
  refine (qm.applyCompliance_side tally_sideways _ same_working).bind fun out l₂ h₂ => ?_
  obtain rfl := h₂.2.2
  cases out with
  | error err => exact haway _ _ (by decide)
  | ok _ => exact haway _ _ (by decide)

/-- Every worker ends with nothing in hand. -/
theorem processMessage_over (hsieve : hasPrefix msg.id "sieve-" = false) :
    Spec tally (qm.processMessage msg) (.start msg) fun _ l' => l'.Over := by
  by_cases hcustody : qm.inCustody msg = true
  · unfold QueueManager.processMessage
    rw [if_pos hcustody]
    exact preserve_tally hsieve
  · exact (processMessage_tally hsieve (Bool.eq_false_iff.mpr hcustody)).mono fun _ _ h => h.over

end Worker

/-- What a party does under the eyes of `tally` it does under those of `owner`. -/
theorem owner_of_tally {β : Type} {p : Queue β} {Q : β → Tally → Prop} (h : Spec tally p l Q) :
    Spec owner p l.hand fun b hand => ∃ l', l'.hand = hand ∧ Q b l' :=
  h.image Tally.hand (fun _ _ h => h.2.1) (fun _ _ _ h => h) track_hand

end Specs

end EmailService
