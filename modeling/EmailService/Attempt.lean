/-
EmailService/Attempt.lean

What a delivery attempt does on the side.

Mailbox delivery, remote delivery, bounces, notifications and Sieve effects
store new entries and hand new messages over to the channels, but they do not
touch the message being delivered.  `Aside` lists the questions they ask on
their own; the only other thing they do is `handOver`.

So a monitor that has an opinion on those questions and on `handOver`
(`Sideways`) gets the specification of every such function, `attempt`
included, by the one lemma proved here for each of them.
-/
import EmailService.Queue

namespace EmailService

open GoStrings Program List Bool

/-! ### Questions on the side -/

/-- An entry as the queue manager hands it to the store: it has an ID and no
children, its status is neither final nor that of a message in delivery, and
the IDs of Sieve records are for Sieve records. -/
structure Plain (e : JournalEntry) : Prop where
  messageID : e.messageID ≠ ""
  transaction : e.transaction = []
  status : e.status ∉ ["delivered", "deleted", "transaction", "queued", "processing"]
  sieve : hasPrefix e.messageID "sieve-" = true → e.status = "sieve_effect"

/-- A question asked on the side. -/
def Aside : QueueQuery → Prop
  | .beginAttempt .. => False
  | .endAttempt .. => False
  | .wait _ => False
  | .acquire _ => False
  | .send .. => False
  | .store (.storeWithReceipt e receipts) => Plain e ∧ ∀ r, some r ∈ receipts → Plain r
  | .store (.storeNotification _ _ child) => child.messageID ≠ "" ∧ child.transaction = [] ∧
      hasPrefix child.messageID "sieve-" = false ∧
      (child.status = "delivered" ∨ child.status = "pending")
  | .store (.updateStatus id status _) => status = "delivered" ∧ hasPrefix id "sieve-" = true
  | .store _ => False
  | _ => True

/-- A message that may be enqueued on the side: its ID is not that of a Sieve
record, and it comes with plain receipts. -/
structure Acceptable (msg : Message) : Prop where
  id : hasPrefix msg.id "sieve-" = false
  extraReceipts : ∀ r ∈ msg.extraReceipts, Plain r
  submissionReceipt : ∀ r ∈ msg.submissionReceipt, Plain r

theorem hasPrefix_sieveKey (C : Codec) (parts : List String) :
    hasPrefix (sieveKey C parts) "sieve-" = true := by
  unfold hasPrefix sieveKey
  rw [String.toList_append, isPrefixOf_iff_prefix]
  exact prefix_append _ _

variable {id : String} {Q : β → Prop} {c : Prop} {p q : Queue β}

theorem ne_empty_of_hasPrefix (h : hasPrefix id "sieve-" = true) : id ≠ "" := by
  rintro rfl
  exact absurd h (by decide)

theorem plain_sieveRecord (h : hasPrefix id "sieve-" = true) (metadata : Metadata) (now : Time) :
    Plain (sieveRecord id metadata now) where
  messageID := ne_empty_of_hasPrefix h
  transaction := rfl
  status := by simp [sieveRecord]
  sieve _ := rfl

theorem UUID.ne_empty (id : UUID) : id.1 ≠ "" := by
  intro h
  have hlen := id.2.1
  rw [h] at hlen
  exact absurd hlen (by decide)

/-- There is no 's' among the hexadecimal digits. -/
theorem UUID.not_sieve (id : UUID) : hasPrefix id.1 "sieve-" = false := by
  rw [eq_false_iff]
  intro h
  have hmem : 's' ∈ id.1.toList :=
    ( isPrefixOf_iff_prefix.mp h).subset (by decide)
  exact absurd (id.2.2 _ hmem) (by decide)

/-! ### Monitors with an opinion on them -/

variable {σ β γ : Type} {M : Monitor queueSignature σ} {R : σ → σ → Prop}

/-- The store has made the transition. -/
def granted : Except String Answer → Bool
  | .ok (.flag true) => true
  | _ => false

theorem spec_tryTransition {fromStatus toStatus : String} {l : σ} {Q : Bool → σ → Prop}
    (hallow : M.Allows l (.store (.transition id fromStatus toStatus)))
    (h : ∀ r, M.Offers l (.store (.transition id fromStatus toStatus)) r →
      Q (granted r) (M.track l (.store (.transition id fromStatus toStatus)) r)) :
    Spec M (tryTransition id fromStatus toStatus) l Q := by
  refine ⟨hallow, fun (r : Except String Answer) hr => ?_⟩
  rcases r with err | _ | ⟨_ | _⟩ | id | n <;> exact h _ hr

/-- What is asked on the side passes and keeps the relation `R`, and so does
handing a message over.  A state is one to start from if it is related to
itself. -/
structure Sideways (M : Monitor queueSignature σ) (R : σ → σ → Prop) : Prop where
  trans : ∀ {l₁ l₂ l₃}, R l₁ l₂ → R l₂ l₃ → R l₁ l₃
  self : ∀ {l l'}, R l l' → R l' l'
  query : ∀ l q, R l l → Aside q → M.Allows l q ∧ ∀ r, M.Offers l q r → R l (M.track l q r)
  handOver : ∀ l tier msg, R l l → hasPrefix msg.id "sieve-" = false →
    Spec M (handOver tier msg) l fun _ l' => R l l'

/-- The program keeps `R`, and its results satisfy `Q`. -/
def Side (M : Monitor queueSignature σ) (R : σ → σ → Prop) (p : Queue β) (Q : β → Prop) : Prop :=
  ∀ l, R l l → Spec M p l fun b l' => Q b ∧ R l l'

/-- The same without a word on the results. -/
abbrev Quiet (M : Monitor queueSignature σ) (R : σ → σ → Prop) (p : Queue β) : Prop :=
  Side M R p fun _ => True

namespace Sideways

variable {Q : β → Prop} {p : Queue β} {f : β → Queue γ} {q : QueueQuery}

theorem result (_ : Sideways M R) {b : β} (h : Q b) : Side M R (pure b) Q :=
  fun _ hl => ⟨h, hl⟩

theorem quiet (S : Sideways M R) (b : β) : Quiet M R (pure b : Queue β) := S.result trivial

theorem andThen (S : Sideways M R) {Q' : γ → Prop} (hp : Side M R p Q)
    (hf : ∀ b, Q b → Side M R (f b) Q') : Side M R (p >>= f) Q' := by
  intro l hl
  refine (hp l hl).bind fun b l₁ hb => (hf b hb.1 l₁ (S.self hb.2)).mono fun c l₂ hc => ?_
  exact ⟨hc.1, S.trans hb.2 hc.2⟩

theorem next (S : Sideways M R) {Q : γ → Prop} (hp : Quiet M R p) (hf : ∀ b, Side M R (f b) Q) :
    Side M R (p >>= f) Q :=
  S.andThen hp fun b _ => hf b

theorem ask (S : Sideways M R) {f : q.Reply → Queue γ} {Q : γ → Prop} (hq : Aside q)
    (hf : ∀ r, Side M R (f r) Q) : Side M R (Program.query (S := queueSignature) q >>= f) Q := by
  intro l hl
  obtain ⟨hallow, hstep⟩ := S.query l q hl hq
  refine ⟨hallow, fun r hr => (hf r _ (S.self (hstep r hr))).mono fun c l' hc => ?_⟩
  exact ⟨hc.1, S.trans (hstep r hr) hc.2⟩

/-- A question whose reply is the result. -/
theorem askLast (S : Sideways M R) (hq : Aside q) :
    Quiet M R (Program.query (S := queueSignature) q) := by
  intro l hl
  obtain ⟨hallow, hstep⟩ := S.query l q hl hq
  exact ⟨hallow, fun r hr => ⟨trivial, hstep r hr⟩⟩

/-- From fewer states. -/
theorem restrict (S : Sideways M R) (P : σ → Prop) (hP : ∀ {l l'}, R l l' → P l → P l') :
    Sideways M (fun l l' => R l l' ∧ P l) where
  trans h h' := ⟨S.trans h.1 h'.1, h.2⟩
  self h := ⟨S.self h.1, hP h.1 h.2⟩
  query l q hl hq :=
    ⟨(S.query l q hl.1 hq).1, fun r hr => ⟨(S.query l q hl.1 hq).2 r hr, hl.2⟩⟩
  handOver l tier msg hl hid :=
    (S.handOver l tier msg hl.1 hid).mono fun _ _ h => ⟨h, hl.2⟩

end Sideways

theorem side_ite [Decidable c] (hp : c → Side M R p Q) (hq : ¬c → Side M R q Q) :
    Side M R (if c then p else q) Q :=
  fun l hl => spec_ite (fun h => hp h l hl) (fun h => hq h l hl)

theorem quiet_ite [Decidable c] (hp : Quiet M R p) (hq : Quiet M R q) :
    Quiet M R (if c then p else q) :=
  side_ite (fun _ => hp) (fun _ => hq)

theorem Side.mono {p : Queue β} {Q Q' : β → Prop} (h : Side M R p Q) (hQ : ∀ b, Q b → Q' b) :
    Side M R p Q' :=
  fun l hl => (h l hl).mono fun b _ hb => ⟨hQ b hb.1, hb.2⟩

theorem Side.quiet (h : Side M R p Q) : Quiet M R p :=
  h.mono fun _ _ => trivial

namespace QueueManager

variable (qm : QueueManager)

/-! ### Acceptance -/

/-- A compliance record is plain. -/
theorem plain_capture (id : UUID) (msg : Message) (metadata : Metadata) :
    Plain { messageID := id.1, fromAddr := msg.fromAddr, toAddrs := msg.toAddrs, data := msg.data,
            tier := "compliance", status := "compliance", metadata := metadata } where
  messageID := id.ne_empty
  transaction := rfl
  status := by simp
  sieve h := absurd (id.not_sieve.symm.trans h) false_ne_true

variable {msg : Message}

theorem plain_linkReceipt (hmsg : Acceptable msg) : ∀ r ∈ linkReceipt msg, Plain r := by
  intro r hr
  obtain ⟨receipt, hreceipt, rfl⟩ := Option.mem_map.mp hr
  have hplain := hmsg.submissionReceipt receipt hreceipt
  split
  · exact ⟨hplain.messageID, hplain.transaction, hplain.status, hplain.sieve⟩
  · exact hplain

theorem plain_acceptedEntry (hmsg : Acceptable msg) (hid : msg.id ≠ "") (encoded : String) :
    Plain (acceptedEntry msg encoded) where
  messageID := hid
  transaction := rfl
  status := by
    unfold acceptedEntry
    dsimp only
    split
    · simp
    · split <;> simp
  sieve h := absurd (hmsg.id.symm.trans h) false_ne_true

section Compliance

variable (S : Sideways M R) {msg : Message}

include S

theorem captureCompliance_side (r : Rule) : Quiet M R (qm.captureCompliance msg r) := by
  unfold captureCompliance
  split
  · exact S.quiet _
  · refine S.next (quiet_ite (S.ask trivial fun _ => S.quiet _) (S.quiet _)) fun retainUntil => ?_
    refine S.ask trivial fun id : UUID => S.ask trivial fun (err : Option String) => ?_
    cases err with
    | some err => exact S.quiet _
    | none =>
      exact S.ask ⟨plain_capture id msg _, by simp⟩ fun _ => S.quiet _

/-- The rules may add a recipient; the rest of the message stays. -/
theorem applyRules_side (held : Bool) (rules : List Rule) :
    Side M R (qm.applyRules held msg rules) fun out =>
      ∀ msg', out = .ok msg' → ∃ addrs, msg' = { msg with toAddrs := addrs } := by
  induction rules generalizing msg with
  | nil => exact S.result fun msg' h => by cases h; exact ⟨_, rfl⟩
  | cons r rules ih =>
    refine side_ite (fun _ => ih) fun _ => side_ite (fun _ => ?_) fun _ => ?_
    · refine S.ask trivial fun (err : Option String) => ?_
      cases err with
      | some err => exact S.result fun msg' h => by cases h
      | none =>
        refine ih.mono fun out h msg' hout => ?_
        obtain ⟨addrs, rfl⟩ := h msg' hout
        exact ⟨addrs, by split <;> rfl⟩
    · refine S.next (qm.captureCompliance_side S r) fun err => ?_
      cases err with
      | some err => exact S.result fun msg' h => by cases h
      | none => exact ih

theorem applyCompliance_addrs :
    Side M R (qm.applyCompliance msg) fun out =>
      ∀ held msg', out = .ok (held, msg') → ∃ addrs, msg' = { msg with toAddrs := addrs } := by
  refine side_ite (fun _ => S.result fun held msg' h => ?_) fun _ => ?_
  · cases h
    exact ⟨_, rfl⟩
  · refine S.next ?_ fun captured => ?_
    · split
      · exact S.quiet _
      · exact qm.captureCompliance_side S _
    cases captured with
    | some err => exact S.result fun held msg' h => by cases h
    | none =>
      refine S.andThen (qm.applyRules_side S _ _) fun out hout => ?_
      cases out with
      | error err => exact S.result fun held msg' h => by cases h
      | ok msg₁ => exact S.result fun held msg' h => by cases h; exact hout _ rfl

/-- So its ID and its receipts stay. -/
theorem applyCompliance_side :
    Side M R (qm.applyCompliance msg) fun out =>
      ∀ held msg', out = .ok (held, msg') →
        (Acceptable msg → Acceptable msg') ∧ msg'.id = msg.id := by
  refine (qm.applyCompliance_addrs S).mono fun out hout held msg' h => ?_
  obtain ⟨addrs, rfl⟩ := hout held msg' h
  exact ⟨fun hmsg => ⟨hmsg.id, hmsg.extraReceipts, hmsg.submissionReceipt⟩, rfl⟩

end Compliance

section Acceptance

variable (S : Sideways M R) {msg : Message}

include S

theorem handOver_side (hid : hasPrefix msg.id "sieve-" = false) (tier : String) :
    Quiet M R (handOver tier msg) :=
  fun l hl => (S.handOver l tier msg hl hid).mono fun _ _ h => ⟨trivial, h⟩

/-- Finalizing a receipt rewrites its metadata only. -/
theorem finalizeReceipt_side {receipt : Option JournalEntry} (h : ∀ r ∈ receipt, Plain r) :
    Side M R (qm.finalizeReceipt receipt) fun out => ∀ r, out = .ok (some r) → Plain r := by
  cases receipt with
  | none => exact S.result fun r h => by cases h
  | some receipt =>
    have hplain := h receipt rfl
    refine side_ite (fun _ => S.result fun r h => by cases h; exact hplain) fun _ => ?_
    split
    · exact S.result fun r h => by cases h
    · refine S.ask trivial fun now : Time => ?_
      dsimp only
      split
      · exact S.result fun r h => by cases h
      · refine S.result fun r h => ?_
        cases h
        exact ⟨hplain.messageID, hplain.transaction, hplain.status, hplain.sieve⟩

theorem persistSubmissionReceipt_side (hmsg : Acceptable msg) :
    Quiet M R (qm.persistSubmissionReceipt msg) := by
  unfold persistSubmissionReceipt
  split
  · exact S.quiet _
  · refine S.andThen (qm.finalizeReceipt_side S hmsg.submissionReceipt) fun out hout => ?_
    split
    · exact S.quiet _
    · exact S.quiet _
    · refine S.ask ⟨hout _ rfl, fun r hr => ?_⟩ fun _ => S.quiet _
      obtain ⟨r', hr', h⟩ := mem_map.mp hr
      cases h
      exact hmsg.extraReceipts r hr'

theorem trackReports_side : Quiet M R (qm.trackReports msg) := by
  refine quiet_ite (S.ask trivial fun (reports : Except String (Option String)) => ?_) (S.quiet _)
  rcases reports with err | - | reports
  · exact S.quiet _
  · exact S.quiet _
  · refine S.ask trivial fun id : UUID => ?_
    refine S.ask ⟨⟨id.ne_empty, rfl, by simp, fun h => ?_⟩, by simp⟩ fun _ => S.quiet _
    exact absurd (id.not_sieve.symm.trans h) false_ne_true

theorem accept_side (hmsg : Acceptable msg) (hid : msg.id ≠ "") : Quiet M R (qm.accept msg) := by
  refine S.next (quiet_ite (S.ask trivial fun _ => S.quiet _) (S.quiet _)) fun traceID => ?_
  have hmsg' : ∀ hash, Acceptable { msg with traceID := traceID, contentHash := hash } :=
    fun _ => ⟨hmsg.id, hmsg.extraReceipts, hmsg.submissionReceipt⟩
  dsimp only
  split
  · exact S.quiet _
  · refine S.andThen (Q := fun out => ∀ r, out = .ok (some r) → Plain r)
      (side_ite (fun _ => qm.finalizeReceipt_side S (plain_linkReceipt (hmsg' _)))
        fun _ => S.result fun r h => plain_linkReceipt (hmsg' _) r (Except.ok.inj h))
      fun finalized hfinal => ?_
    cases finalized with
    | error err => exact S.quiet _
    | ok receipt =>
      refine S.ask ⟨plain_acceptedEntry (hmsg' _) hid _, fun r hr => ?_⟩
        fun (stored : Except String Answer) => ?_
      · rcases mem_append.mp hr with hr | hr
        · obtain ⟨r', hr', h⟩ := mem_map.mp hr
          cases h
          exact hmsg.extraReceipts r hr'
        · exact hfinal r (congrArg Except.ok (mem_singleton.mp hr).symm)
      · cases stored with
        | error err => exact S.quiet _
        | ok _ =>
          refine quiet_ite (S.quiet _) (S.next (handOver_side S ?_ _) fun _ => S.quiet _)
          exact hmsg.id

/-- The ID `Enqueue` gives a message that has none. -/
theorem freshID_side (hmsg : Acceptable msg) : Side M R (if msg.id = "" then do
      let id ← askUUID
      pure id.1
    else pure msg.id) fun id => id ≠ "" ∧ hasPrefix id "sieve-" = false :=
  side_ite (fun _ => S.ask trivial fun id : UUID => S.result ⟨id.ne_empty, id.not_sieve⟩)
    fun h => S.result ⟨h, hmsg.id⟩

theorem enqueue_side (hmsg : Acceptable msg) : Quiet M R (qm.enqueue msg) := by
  refine S.andThen (freshID_side S hmsg) fun id hid => quiet_ite (S.quiet _) ?_
  have hmsg' : Acceptable { msg with id := id } :=
    ⟨hid.2, hmsg.extraReceipts, hmsg.submissionReceipt⟩
  refine S.andThen (qm.applyCompliance_side S) fun out hout => ?_
  rcases out with err | ⟨- | -, msg'⟩
  · exact S.quiet _
  · obtain ⟨hacc, hsame⟩ := hout _ _ rfl
    refine S.next (qm.trackReports_side S) fun err => ?_
    cases err with
    | some err => exact S.quiet _
    | none => exact qm.accept_side S (hacc hmsg') (by rw [hsame]; exact hid.1)
  · exact qm.persistSubmissionReceipt_side S ((hout _ _ rfl).1 hmsg')

end Acceptance

/-! ### Notifications -/

section Notifications

variable (S : Sideways M R) {msg : Message}

include S

theorem sendDSN_side (rcpt event action : String) :
    Quiet M R (qm.sendDSN msg rcpt event action) := by
  refine quiet_ite (S.quiet _) (S.ask trivial fun (source : Except String JournalEntry) => ?_)
  cases source with
  | error err => exact S.quiet _
  | ok source =>
    refine quiet_ite (S.quiet _)
      (S.ask trivial fun (raw : Except String (List UInt8)) => ?_)
    cases raw with
    | error err => exact S.quiet _
    | ok raw =>
      refine S.ask trivial fun id : UUID => S.ask trivial fun now : Time => ?_
      refine S.andThen (qm.applyCompliance_side S) fun out hout => ?_
      rcases out with err | ⟨held, notice⟩
      · exact S.quiet _
      · obtain ⟨hkeep, hsame⟩ := hout _ _ rfl
        have hacc := hkeep ⟨id.not_sieve, by simp, by simp⟩
        have hne : notice.id ≠ "" := by rw [hsame]; exact id.ne_empty
        dsimp only
        split
        · exact S.quiet _
        · refine S.ask ⟨hne, rfl, hacc.id, ?_⟩ fun (stored : Except String Answer) => ?_
          · cases held <;> simp
          · split
            · exact S.quiet _
            · exact quiet_ite (S.quiet _)
                (S.next (handOver_side S hacc.id _) fun _ => S.quiet _)
            · exact S.quiet _

theorem sendDSNs_side (event action : String) (rcpts : List String) :
    Quiet M R (qm.sendDSNs msg event action rcpts) := by
  induction rcpts with
  | nil => exact S.quiet _
  | cons rcpt rest ih =>
    refine S.next (qm.sendDSN_side S rcpt event action) fun err => ?_
    cases err with
    | some err => exact S.quiet _
    | none => exact ih

variable (result : DeliveryResult) (rcpts : List String)

theorem bounceEach_side : Quiet M R (qm.bounceEach msg result rcpts) := by
  induction rcpts with
  | nil => exact S.quiet _
  | cons rcpt rest ih =>
    refine quiet_ite ih
      (S.ask trivial fun (raw : Except String (List UInt8)) => ?_)
    cases raw with
    | error err => exact S.quiet _
    | ok raw =>
      refine S.ask trivial fun now : Time => ?_
      refine S.next (qm.enqueue_side S ⟨rfl, by simp, by simp⟩) fun err => ?_
      cases err with
      | some err => exact S.quiet _
      | none => exact ih

theorem generateBounce_side : Quiet M R (qm.generateBounce msg result rcpts) :=
  quiet_ite (S.askLast trivial)
    (quiet_ite (S.quiet _) (quiet_ite (S.quiet _) (qm.bounceEach_side S result rcpts)))

end Notifications

/-! ### Sieve -/

section Sieve

variable (S : Sideways M R) {msg : Message}

include S

variable {child : Message} {interval : String}

theorem enqueueStamped_side (hchild : Acceptable child) {marker : JournalEntry}
    (hmarker : Plain marker) (hinterval : hasPrefix interval "sieve-" = true) (expiry : Time)
    (user : String) : Quiet M R (qm.enqueueStamped child marker interval expiry user) := by
  refine S.ask trivial fun now : Time => qm.enqueue_side S ⟨hchild.id, ?_, ?_⟩
  · intro r hr
    obtain rfl := mem_singleton.mp hr
    exact plain_sieveRecord hinterval _ _
  · rintro r ⟨rfl⟩
    exact hmarker

/-- The interval record is the one entry whose status is set on the side. -/
theorem enqueueSieveOnce_side (hchild : Acceptable child) {key : String}
    (hkey : hasPrefix key "sieve-" = true)
    (hinterval : interval ≠ "" → hasPrefix interval "sieve-" = true) (expiry : Time)
    (source user : String) :
    Quiet M R (qm.enqueueSieveOnce child key interval expiry source user) := by
  refine S.ask trivial fun (seen : Except String JournalEntry) => ?_
  cases seen with
  | ok _ => exact S.quiet _
  | error _ =>
    refine S.ask trivial fun now : Time => ?_
    have hmarker := plain_sieveRecord hkey
      (((∅ : Metadata).insert "source_id" source).insert "username" user) now
    refine side_ite (fun _ => qm.enqueue_side S ⟨hchild.id, hchild.extraReceipts, ?_⟩)
      fun hne => ?_
    · rintro r ⟨rfl⟩
      exact hmarker
    · have hstamped := qm.enqueueStamped_side S hchild hmarker (hinterval hne) expiry user
      refine S.ask trivial fun (old : Except String JournalEntry) => ?_
      cases old with
      | error _ => exact hstamped
      | ok old =>
        dsimp only
        split
        · exact S.quiet _
        · refine S.ask trivial fun now : Time => ?_
          refine quiet_ite (S.ask ⟨hmarker, by simp⟩ fun _ => S.quiet _) ?_
          refine S.ask ⟨rfl, hinterval hne⟩ fun (r : Except String Answer) => ?_
          cases r with
          | error err => exact S.quiet _
          | ok _ => exact hstamped

variable (user rcpt : String)

theorem sieveVacation_side (v : Option Vacation) :
    Quiet M R (qm.sieveVacation msg user rcpt v) := by
  cases v with
  | none => exact S.quiet _
  | some v =>
    refine quiet_ite (S.quiet _)
      (S.ask trivial fun (reply : Except String (Option VacationReply)) => ?_)
    rcases reply with err | - | reply
    · exact S.quiet _
    · exact S.quiet _
    · refine S.ask trivial fun now : Time => ?_
      exact qm.enqueueSieveOnce_side S ⟨rfl, by simp, by simp⟩ (hasPrefix_sieveKey _ _)
        (fun _ => hasPrefix_sieveKey _ _) _ _ _

theorem sievePlan_side (script rcpt : String) : Quiet M R (qm.sievePlan msg user script rcpt) := by
  refine S.ask trivial fun (stored : Except String JournalEntry) => ?_
  cases stored with
  | ok _ => exact S.quiet _
  | error _ =>
    refine S.ask trivial fun (action : Except String SieveAction) => ?_
    cases action with
    | error _ => exact S.quiet _
    | ok action =>
      dsimp only
      split
      · exact S.quiet _
      · refine S.ask trivial fun now : Time => ?_
        have hrecord := plain_sieveRecord (hasPrefix_sieveKey qm.codec ["plan", msg.id, user])
        refine S.ask ⟨hrecord _ now, by simp⟩ fun (r : Except String Answer) => ?_
        cases r <;> exact S.quiet _

theorem executeSteps_side (folders : Groups String) (plan : List SieveStep) :
    Quiet M R (qm.executeSteps msg user rcpt folders plan) := by
  induction plan generalizing folders with
  | nil => exact S.quiet _
  | cons a rest ih =>
    unfold executeSteps
    split
    · exact ih _
    · exact ih _
    · refine S.ask trivial fun (data : Except String (List UInt8)) => ?_
      cases data with
      | error err => exact S.quiet _
      | ok data =>
        refine S.next (qm.enqueueSieveOnce_side S ⟨rfl, by simp, by simp⟩
          (hasPrefix_sieveKey _ _) (fun h => absurd rfl h) _ _ _) fun err => ?_
        cases err with
        | some err => exact S.quiet _
        | none => exact ih _
    · refine S.next (qm.sieveVacation_side S user rcpt a.vacation) fun err => ?_
      cases err with
      | some err => exact S.quiet _
      | none => exact ih _
    · exact S.next (qm.generateBounce_side S _ _) fun _ => S.quiet _
    · exact ih _
    · exact S.quiet _

theorem fileCopies_side (flags : String → List String) (index : ℕ) (folders : List String) :
    Quiet M R (qm.fileCopies msg user rcpt flags index folders) := by
  induction folders generalizing index with
  | nil => exact S.quiet _
  | cons folder rest ih =>
    refine S.ask trivial fun (r : Except String String) => ?_
    cases r with
    | error err => exact S.quiet _
    | ok _ => exact ih _

theorem executeSieve_side (action : SieveAction) :
    Quiet M R (qm.executeSieve msg user rcpt action) := by
  refine S.next (qm.executeSteps_side S user rcpt _ _) fun r => ?_
  cases r with
  | error err => exact S.quiet _
  | ok folders =>
    refine S.next (qm.fileCopies_side S user rcpt _ _ _) fun err => ?_
    cases err with
    | some err => exact S.quiet _
    | none => exact quiet_ite (S.quiet _) (qm.sendDSN_side S _ _ _)

end Sieve

/-! ### Delivery -/

section Delivery

variable (S : Sideways M R) {msg : Message}

include S

theorem findScript_side (user : String) : Quiet M R (qm.findScript msg user) := by
  refine quiet_ite (S.quiet _) (S.ask trivial fun (file : ScriptFile) => ?_)
  refine S.ask trivial fun (plan : Except String JournalEntry) => ?_
  cases plan with
  | error _ => exact S.quiet _
  | ok _ => cases file <;> exact S.quiet _

/-- The script's part of a mailbox delivery. -/
theorem runScript_side (username script rcpt : String) :
    Quiet M R (do
    match ← qm.sievePlan msg username script rcpt with
    | .error err => pure (.ok (some ("Sieve for " ++ rcpt ++ ": " ++ err)))
    | .ok action => do
        let err ← qm.executeSieve msg username rcpt action
        pure (.ok err) : Queue (Except String (Option String))) := by
  refine S.next (qm.sievePlan_side S username script rcpt) fun plan => ?_
  cases plan with
  | error err => exact S.quiet _
  | ok action =>
    exact S.next (qm.executeSieve_side S username rcpt _) fun _ => S.quiet _

variable (rcpt : String)

theorem deliverMailbox_side : Quiet M R (qm.deliverMailbox msg rcpt) := by
  refine S.next (quiet_ite (S.askLast trivial) (S.quiet _)) fun user => ?_
  cases user with
  | none => exact S.quiet _
  | some username =>
    refine S.next (qm.findScript_side S username) fun file => ?_
    cases file with
    | failed err => exact S.quiet _
    | found script =>
      refine S.ask trivial fun (err : Option String) => ?_
      cases err with
      | some err => exact S.quiet _
      | none => exact qm.runScript_side S username script rcpt
    | missing =>
      refine S.ask trivial fun (r : Except String String) => ?_
      cases r with
      | error err => exact S.quiet _
      | ok _ =>
        refine S.next (qm.sendDSN_side S rcpt _ _) fun err => ?_
        cases err <;> exact S.quiet _

theorem deliverLocal_side (deliveryErr : Option String) (rcpts : List String) :
    Quiet M R (qm.deliverLocal msg deliveryErr rcpts) := by
  induction rcpts generalizing deliveryErr with
  | nil => exact S.quiet _
  | cons rcpt rest ih =>
    refine S.next (qm.deliverMailbox_side S rcpt) fun r => ?_
    cases r with
    | error err => exact S.quiet _
    | ok err => exact ih _

theorem handleRecipientOutcomes_side (result : DeliveryResult) :
    Quiet M R (qm.handleRecipientOutcomes msg result) :=
  quiet_ite (S.quiet _) (qm.generateBounce_side S _ _)

theorem concludeRemote_side (result : Option DeliveryResult) (err : Option String) :
    Quiet M R (qm.concludeRemote msg result err) := by
  rcases err with - | err <;> rcases result with - | result
  · exact S.quiet _
  · exact qm.handleRecipientOutcomes_side S result
  · exact S.quiet _
  · refine S.next (qm.handleRecipientOutcomes_side S result) fun e => ?_
    cases e with
    | some e => exact S.quiet _
    | none => exact quiet_ite (S.quiet _) (S.quiet _)

theorem lift_side (p : Net β) :
    Quiet M R (p.lift netInclusion) := by
  induction p with
  | done b => exact S.quiet b
  | ask q k ih => exact S.ask trivial fun r => ih r

theorem deliverRemote_side (rcpts : List String) :
    Quiet M R (qm.deliverRemote msg rcpts) := by
  refine S.ask trivial fun (signed : Except String (Option (List UInt8))) => ?_
  cases signed with
  | error err => exact S.quiet _
  | ok signed =>
    refine S.next (lift_side S _) fun outcome => ?_
    refine S.next (quiet_ite (qm.sendDSNs_side S _ _ _) (S.quiet _)) fun notified => ?_
    cases notified with
    | some e => exact S.quiet _
    | none =>
      exact S.next (quiet_ite (S.askLast trivial) (S.quiet _)) fun _ =>
        qm.concludeRemote_side S _ _

/-- A delivery attempt stays on the side. -/
theorem attempt_side : Quiet M R (qm.attempt msg rcpt) :=
  quiet_ite (qm.generateBounce_side S _ _)
    (quiet_ite (qm.deliverLocal_side S _ _)
      (qm.deliverRemote_side S _))

theorem paused_side (key : String) : Quiet M R (qm.paused key) :=
  quiet_ite (S.askLast trivial) (S.quiet _)

theorem release_side : Quiet M R (qm.release rcpt) :=
  quiet_ite (S.askLast trivial) (S.quiet _)

end Delivery

end QueueManager

/-! ### The scheduler and the operators -/

/-- A monitor with an opinion on their errands, too. -/
structure Errands (qm : QueueManager) (M : Monitor queueSignature σ) (R : σ → σ → Prop) :
    Prop extends Sideways M R where
  finishScheduled : ∀ receiptID user cancel now,
    Quiet M R (askStore (.finishScheduled receiptID user cancel now))
  releaseHeld : ∀ id actor, Quiet M R (askStore (.releaseHeld id actor))
  releaseCompliance : ∀ id actor reason (child : JournalEntry), child.transaction = [] →
    Quiet M R (askStore (.releaseCompliance id actor reason (some child)))
  handOverAny : ∀ tier msg, Quiet M R (EmailService.handOver tier msg)
  giveUp : ∀ entry, Quiet M R (qm.giveUp entry)

namespace QueueManager

section Scheduler

variable (qm : QueueManager) (S : Errands qm M R)

include S

theorem warnEach_side (entry : JournalEntry) (rcpts : List String) :
    Quiet M R (qm.warnEach entry rcpts) := by
  induction rcpts with
  | nil => exact S.quiet _
  | cons rcpt rest ih =>
    exact S.next (qm.sendDSN_side S.toSideways rcpt _ _) fun _ => ih

theorem retryEntry_side (entry : JournalEntry) :
    Quiet M R (qm.retryEntry entry) := by
  refine quiet_ite (S.quiet _) (quiet_ite (S.giveUp entry) ?_)
  refine S.next (quiet_ite (S.ask trivial fun _ => S.quiet _) (S.quiet _)) fun overdue => ?_
  refine S.next (quiet_ite (qm.warnEach_side S entry _) (S.quiet _)) fun _ => ?_
  exact S.ask trivial fun now : Time => quiet_ite (S.quiet _) (S.handOverAny _ _)

theorem retryEach_side (entries : List JournalEntry) :
    Quiet M R (qm.retryEach entries) := by
  induction entries with
  | nil => exact S.quiet _
  | cons entry rest ih =>
    exact S.next (qm.retryEntry_side S entry) fun _ => ih

theorem releaseScheduled_side (entries : List JournalEntry) :
    Quiet M R (releaseScheduled entries) := by
  induction entries with
  | nil => exact S.quiet _
  | cons e rest ih =>
    exact S.ask trivial fun now : Time => S.next (S.finishScheduled _ _ _ now) fun _ => ih

theorem processRetries_side :
    Quiet M R qm.processRetries := by
  refine S.ask trivial fun (scheduled : List JournalEntry) => ?_
  refine S.next (releaseScheduled_side qm S scheduled) fun _ => ?_
  refine S.ask trivial fun (pending : List JournalEntry) => ?_
  exact S.ask trivial fun (sorted : { sorted : List JournalEntry // _ }) =>
    qm.retryEach_side S _

theorem releaseHeld_side (id actor : String) : Quiet M R (qm.releaseHeld id actor) := by
  refine S.ask trivial fun (found : Except String JournalEntry) => ?_
  cases found with
  | error err => exact S.quiet _
  | ok entry =>
    refine quiet_ite (S.quiet _) (quiet_ite (S.quiet _) ?_)
    refine S.ask trivial fun (err : Option String) => ?_
    cases err with
    | some err => exact S.quiet _
    | none => exact S.next (S.releaseHeld id actor) fun _ => S.quiet _

theorem releaseCompliance_side (id actor reason : String) :
    Quiet M R (qm.releaseCompliance id actor reason) := by
  refine S.ask trivial fun (found : Except String JournalEntry) => ?_
  cases found with
  | error err => exact S.quiet _
  | ok e =>
    refine quiet_ite (S.quiet _) ?_
    dsimp only
    split
    · exact S.quiet _
    refine quiet_ite (S.quiet _) (quiet_ite (S.quiet _) ?_)
    split
    · exact S.quiet _
    split
    · exact S.quiet _
    refine S.next (S.releaseCompliance id actor reason _ rfl) fun stored => ?_
    cases stored with
    | error err => exact S.quiet _
    | ok _ => exact quiet_ite (S.quiet _) (S.next (S.handOverAny _ _) fun _ => S.quiet _)

end Scheduler

end QueueManager

end EmailService
