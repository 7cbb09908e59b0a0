/-
EmailService/Disposal.lean

A message is marked delivered only when each of its recipients is disposed of.

`fates` watches a run of `processMessage` and keeps what speaks for each
recipient: acknowledgements on the wire, mailbox copies, Sieve scripts that
were run, bounces that were drafted and stored, suppressed bounces, and
permanent refusals during the recipient's own attempt.  One specification per
function says what an attempt without an error has achieved; the loop over the
recipients collects them, and `finalizeDelivery` stands behind the guard.

Addresses are those with exactly one '@'.  For others `groupByDomain` finds no
domain and `Deliver` has no outcome.
-/
import EmailService.Attempt
import EmailService.Runs

namespace EmailService

open GoStrings Program List Bool Subset

/-! ### The monitor -/

structure Fates where
  wire : Wire := {}
  /-- the recipient of the latest attempt -/
  current : String := ""
  /-- the recipients whose attempt met a permanent refusal -/
  refused : List String := []
  /-- the keys of the mailbox copies -/
  stored : List String := []
  /-- the recipients whose Sieve script was run -/
  scripted : List String := []
  /-- bounces: the sender they are for, the recipient that failed, their text -/
  drafts : List (String × String × List UInt8) := []
  /-- the entries the store has taken -/
  posted : List JournalEntry := []
  /-- the messages whose bounces are suppressed on record -/
  audited : List String := []

variable (f : Fates)

/-- A dialogue with the network goes to the account of the current recipient. -/
def Fates.hear (w : Wire) : Fates :=
  { f with
    wire := w
    refused := if w.refused then f.current :: f.refused else f.refused }

theorem Fates.subset_hear (w : Wire) : f.refused ⊆ (f.hear w).refused := by
  unfold Fates.hear
  dsimp only
  split
  · exact subset_cons_self _ _
  · exact .refl _

theorem Fates.current_mem_hear {w : Wire} (h : w.refused = true) :
    f.current ∈ (f.hear w).refused := by
  unfold Fates.hear
  rw [if_pos h]
  exact mem_cons_self

def Fates.track (f : Fates) : (q : QueueQuery) → q.Reply → Fates
  | .net q, r => f.hear (f.wire.track q r)
  | .beginAttempt _ rcpt, _ =>
    { f with wire := { f.wire with refused := false }, current := rcpt }
  | .deliverOnce key .., .ok _ => { f with stored := key :: f.stored }
  | .emailContext _ rcpt, none => { f with scripted := rcpt :: f.scripted }
  | .generateBounce sender reason _, .ok raw =>
    if reason.action = "" then { f with drafts := (sender, reason.recipient, raw) :: f.drafts }
    else f
  | .store (.storeWithReceipt e _), .ok _ => { f with posted := e :: f.posted }
  | .audit _ action id, none =>
    if action = "bounce_suppressed_by_configuration" then { f with audited := id :: f.audited }
    else f
  | _, _ => f

/-- Everything on record stays on record. -/
structure Fates.Grows (f f' : Fates) : Prop where
  acknowledged : ∀ rcpt ∈ f.wire.acknowledged, rcpt ∈ f'.wire.acknowledged
  refused : f.refused ⊆ f'.refused
  stored : f.stored ⊆ f'.stored
  scripted : f.scripted ⊆ f'.scripted
  drafts : f.drafts ⊆ f'.drafts
  posted : f.posted ⊆ f'.posted
  audited : f.audited ⊆ f'.audited

theorem Fates.Grows.refl : f.Grows f :=
  ⟨fun _ h => h, fun _ h => h, fun _ h => h, fun _ h => h, fun _ h => h, fun _ h => h, fun _ h => h⟩

variable {f₁ f₂ f₃ : Fates}

theorem Fates.Grows.trans (h : f₁.Grows f₂) (h' : f₂.Grows f₃) : f₁.Grows f₃ where
  acknowledged r hr := h'.acknowledged r (h.acknowledged r hr)
  refused := Subset.trans h.refused h'.refused
  stored := Subset.trans h.stored h'.stored
  scripted := Subset.trans h.scripted h'.scripted
  drafts := Subset.trans h.drafts h'.drafts
  posted := Subset.trans h.posted h'.posted
  audited := Subset.trans h.audited h'.audited

theorem Fates.grows_track (q : QueueQuery) (r : q.Reply) : f.Grows (f.track q r) := by
  unfold Fates.track
  split
  · exact { Fates.Grows.refl f with
      acknowledged := (f.wire.grows_track _ _).acknowledged
      refused := f.subset_hear _ }
  · exact { Fates.Grows.refl f with }
  · exact { Fates.Grows.refl f with stored := subset_cons_self _ _ }
  · exact { Fates.Grows.refl f with scripted := subset_cons_self _ _ }
  · split
    · exact { Fates.Grows.refl f with drafts := subset_cons_self _ _ }
    · exact .refl f
  · exact { Fates.Grows.refl f with posted := subset_cons_self _ _ }
  · split
    · exact { Fates.Grows.refl f with audited := subset_cons_self _ _ }
    · exact .refl f
  · exact .refl f

/-- Beside the growth: the wire grows, the current recipient stays, and a refusal
on the wire is on its account. -/
structure Fates.Within (f f' : Fates) : Prop extends f.Grows f' where
  wire : f.wire.Grows f'.wire
  current : f'.current = f.current
  marked : (f.wire.refused = true → f.current ∈ f.refused) →
    f'.wire.refused = true → f'.current ∈ f'.refused

theorem Fates.Within.refl : f.Within f := ⟨.refl f, .refl _, rfl, id⟩

theorem Fates.Within.trans (h : f₁.Within f₂) (h' : f₂.Within f₃) : f₁.Within f₃ :=
  ⟨h.toGrows.trans h'.toGrows, h.wire.trans h'.wire, h'.current.trans h.current,
    fun hm => h'.marked (h.marked hm)⟩

/-- Only the beginning of an attempt makes a recipient the current one. -/
theorem Fates.within_track {q : QueueQuery} (hq : ∀ m rcpt, q ≠ .beginAttempt m rcpt) (r : q.Reply)
    : f.Within (f.track q r) := by
  have hgrows := f.grows_track q r
  revert hgrows
  unfold Fates.track
  split
  · exact fun h => ⟨h, f.wire.grows_track _ _, rfl, fun _ h => f.current_mem_hear h⟩
  · exact absurd rfl (hq _ _)
  · exact fun h => ⟨h, .refl _, rfl, id⟩
  · exact fun h => ⟨h, .refl _, rfl, id⟩
  · split <;> exact fun h => ⟨h, .refl _, rfl, id⟩
  · exact fun h => ⟨h, .refl _, rfl, id⟩
  · split <;> exact fun h => ⟨h, .refl _, rfl, id⟩
  · exact fun h => ⟨h, .refl _, rfl, id⟩

/-- The monitor: a message may be marked delivered once `Done` holds. -/
def fates (id : String) (Done : Fates → Prop) : Monitor queueSignature Fates where
  track := Fates.track
  Allows f q := ∀ e, q = .store (.updateStatus id "delivered" e) → Done f

section Specs

variable {qm : QueueManager} {msg : Message} {f : Fates} {id : String} {Done : Fates → Prop}
  {γ β : Type} {q : QueueQuery} {g : q.Reply → Queue γ} {Q R : γ → Fates → Prop}
  {p : Queue β} {f' : Fates} {rcpt : String} {result : DeliveryResult} {err : Option String}

/-- A question that is neither a beginning nor the mark. -/
theorem spec_within (hbegin : ∀ m rcpt, q ≠ .beginAttempt m rcpt)
    (hmark : ∀ e, q ≠ .store (.updateStatus id "delivered" e))
    (h : ∀ r f', f.Within f' → Spec (fates id Done) (g r) f' Q) :
    Spec (fates id Done) (query (S := queueSignature) q >>= g) f Q :=
  ⟨fun e heq => absurd heq (hmark e), fun r _ => h r _ (f.within_track hbegin r)⟩

theorem tryTransition_within {m fromStatus toStatus : String} :
    Spec (fates id Done) (tryTransition m fromStatus toStatus) f fun _ f' => f.Within f' := by
  refine spec_tryTransition (nofun) fun r _ => ?_
  exact f.within_track (q := .store (.transition m fromStatus toStatus)) (by simp) r

/-- What is asked on the side passes, unless the message has the ID of a Sieve
record. -/
theorem fates_allows (hid : hasPrefix id "sieve-" = false) (hq : Aside q) (e : String) :
    q ≠ .store (.updateStatus id "delivered" e) := by
  rintro rfl
  have hsieve : hasPrefix id "sieve-" = true := hq.2
  rw [hid] at hsieve
  cases hsieve

theorem fates_sideways (hid : hasPrefix id "sieve-" = false) :
    Sideways (fates id Done) Fates.Within where
  trans := .trans
  self _ := .refl _
  query f q _ hq := by
    refine ⟨fun e heq => absurd heq (fates_allows hid hq e), fun r _ => f.within_track ?_ r⟩
    rintro m rcpt rfl
    exact hq
  handOver f tier msg _ _ := by
    refine tryTransition_within.bind fun owned f₁ h₁ => ?_
    refine spec_ite (fun _ => ?_) fun _ => h₁
    refine spec_within (by simp) (by simp) fun (reply : SendReply) f₂ h₂ => ?_
    cases reply with
    | sent => exact h₁.trans h₂
    | full => exact spec_within (by simp) (by simp) fun _ f₃ h₃ => (h₁.trans h₂).trans h₃
    | shutdown => exact spec_within (by simp) (by simp) fun _ f₃ h₃ => (h₁.trans h₂).trans h₃

/-- A specification of a program on the side, together with `Within`. -/
theorem spec_aside {Q : β → Fates → Prop} (h : Quiet (fates id Done) Fates.Within p)
    (hQ : Spec (fates id Done) p f Q) : Spec (fates id Done) p f fun b f' => Q b f' ∧ f.Within f' :=
  (hQ.and (h f (.refl f))).mono fun _ _ hb => ⟨hb.1, hb.2.2⟩

theorem spec_bind_aside {g : β → Queue γ} (hp : Quiet (fates id Done) Fates.Within p)
    (h : ∀ b f', f.Within f' → Spec (fates id Done) (g b) f' Q) :
    Spec (fates id Done) (p >>= g) f Q :=
  (hp f (.refl f)).bind fun b f' hb => h b f' hb.2

theorem spec_ask_aside (hid : hasPrefix id "sieve-" = false) (hq : Aside q)
    (h : ∀ r, Spec (fates id Done) (g r) (f.track q r) Q) :
    Spec (fates id Done) (query (S := queueSignature) q >>= g) f Q :=
  ⟨fun e heq => absurd heq (fates_allows hid hq e), fun r _ => h r⟩

/-! ### Bounces -/

/-- The store has taken an entry for the message: from its sender, to at least
its recipients, with its data. -/
def Fates.Posted (f : Fates) (msg : Message) : Prop :=
  ∃ e ∈ f.posted, e.fromAddr = msg.fromAddr ∧ msg.toAddrs ⊆ e.toAddrs ∧ e.data = msg.data

theorem Fates.Posted.mono (h : f.Posted msg) (hgrows : f.Grows f') : f'.Posted msg := by
  obtain ⟨e, he, hentry⟩ := h
  exact ⟨e, hgrows.posted he, hentry⟩

section

variable (hid : hasPrefix id "sieve-" = false)

include hid

theorem captureCompliance_posts (r : Rule) :
    Spec (fates id Done) (qm.captureCompliance msg r) f fun err f' =>
      err = none → f'.Posted msg := by
  unfold QueueManager.captureCompliance
  split
  · exact nofun
  · have S : Sideways (fates id Done) Fates.Within := fates_sideways hid
    refine spec_bind_aside (quiet_ite (S.ask trivial fun _ => S.quiet _) (S.quiet _))
      fun _ f₁ _ => ?_
    refine spec_ask_aside hid trivial fun (fresh : UUID) => ?_
    refine spec_ask_aside hid trivial fun (err : Option String) => ?_
    cases err with
    | some err => exact nofun
    | none =>
      refine ⟨nofun, fun (stored : Except String Answer) _ => ?_⟩
      cases stored with
      | error err => exact nofun
      | ok _ => exact fun _ => ⟨_, mem_cons_self, rfl, .refl _, rfl⟩

/-- A BCC rule adds a recipient; nothing else about the message changes. -/
theorem applyRules_keeps (held : Bool)
    (rules : List Rule) :
    Spec (fates id Done) (qm.applyRules held msg rules) f fun out _ =>
      ∀ msg', out = .ok msg' → msg'.fromAddr = msg.fromAddr ∧ msg.toAddrs ⊆ msg'.toAddrs ∧
        msg'.data = msg.data := by
  induction rules generalizing msg f with
  | nil =>
    rintro msg' hout
    cases hout
    exact ⟨rfl, .refl _, rfl⟩
  | cons r rules ih =>
    unfold QueueManager.applyRules
    split
    · exact ih
    · split
      · refine spec_ask_aside hid trivial fun (err : Option String) => ?_
        cases err with
        | some err => exact fun _ h => by cases h
        | none =>
          refine ih.mono fun out f' h msg' hout => ?_
          specialize h msg' hout
          split at h
          · exact ⟨h.1, Subset.trans (subset_append_left _ _) h.2.1, h.2.2⟩
          · exact h
      · refine spec_bind_aside (qm.captureCompliance_side (fates_sideways hid) r)
          fun err f₁ _ => ?_
        cases err with
        | some err => exact fun _ h => by cases h
        | none => exact ih

/-- A held message is in custody; another goes on as it was, perhaps with
further recipients. -/
theorem applyCompliance_spec :
    Spec (fates id Done) (qm.applyCompliance msg) f fun out f' =>
      ∀ held msg', out = .ok (held, msg') → (held = true → f'.Posted msg) ∧
        msg'.fromAddr = msg.fromAddr ∧ msg.toAddrs ⊆ msg'.toAddrs ∧ msg'.data = msg.data := by
  unfold QueueManager.applyCompliance
  split
  · rintro held msg' hout
    cases hout
    exact ⟨fun h => absurd h false_ne_true, rfl, refl _, rfl⟩
  · -- a rule that holds the message is among those that are combined
    refine Spec.bind (Q := fun captured f' => captured = none →
      (evaluate qm.tables qm.rules msg.fromAddr msg.toAddrs).any (·.takesCustody) = true →
      f'.Posted msg) ?_ fun captured f₁ hposted => ?_
    · split
      · rename_i hnone
        rintro _ hheld
        obtain ⟨r, hr, hcustody⟩ := any_eq_true.mp hheld
        have hmem := mem_filter.mpr ⟨hr, hcustody⟩
        unfold combineRules at hnone
        split at hnone
        · rename_i hempty
          rw [hempty] at hmem
          cases hmem
        · cases hnone
      · exact (captureCompliance_posts hid _).mono fun _ _ h hnone _ => h hnone
    cases captured with
    | some err => exact fun _ _ h => by cases h
    | none =>
      refine .bind (spec_aside (qm.applyRules_side (fates_sideways hid) _ _).quiet
        (applyRules_keeps hid _ _)) fun out f₂ hout => ?_
      obtain ⟨hkeeps, hwithin⟩ := hout
      cases out with
      | error err => exact fun _ _ h => by cases h
      | ok msg₁ =>
        rintro held msg' hout
        cases hout
        exact ⟨fun hheld => (hposted rfl hheld).mono hwithin.toGrows, hkeeps _ rfl⟩

theorem accept_posts (hmsg : Acceptable msg) :
    Spec (fates id Done) (qm.accept msg) f fun err f' => err = none → f'.Posted msg := by
  have S : Sideways (fates id Done) Fates.Within := fates_sideways hid
  have hmsg' : ∀ traceID hash, Acceptable { msg with traceID := traceID, contentHash := hash } :=
    fun _ _ => ⟨hmsg.id, hmsg.extraReceipts, hmsg.submissionReceipt⟩
  refine spec_bind_aside (quiet_ite (S.ask trivial fun _ => S.quiet _) (S.quiet _))
    fun traceID f₁ _ => ?_
  dsimp only
  split
  · exact nofun
  · refine spec_bind_aside (quiet_ite (qm.finalizeReceipt_side S
      (QueueManager.plain_linkReceipt (hmsg' _ _))).quiet (S.quiet _)) fun finalized f₂ _ => ?_
    cases finalized with
    | error err => exact nofun
    | ok receipt =>
      refine spec_ask (nofun) fun (stored : Except String Answer) _ => ?_
      cases stored with
      | error err => exact nofun
      | ok _ =>
        refine spec_ite (fun _ _ => ?_) fun _ => ?_
        · exact ⟨_, mem_cons_self, rfl, refl _, rfl⟩
        · refine spec_bind_aside (QueueManager.handOver_side S (hmsg' _ _).id _)
            fun _ f₃ hwithin _ => Fates.Posted.mono ?_ hwithin.toGrows
          exact ⟨_, mem_cons_self, rfl, refl _, rfl⟩

/-- What `Enqueue` accepts is in the store. -/
theorem enqueue_posts (hmsg : Acceptable msg) :
    Spec (fates id Done) (qm.enqueue msg) f fun err f' => err = none → f'.Posted msg := by
  have S : Sideways (fates id Done) Fates.Within := fates_sideways hid
  refine Spec.bind (QueueManager.freshID_side S hmsg f (.refl f)) fun newID f₁ hnew => ?_
  have hmsg' : Acceptable { msg with id := newID } :=
    ⟨hnew.1.2, hmsg.extraReceipts, hmsg.submissionReceipt⟩
  refine spec_ite (fun _ h => by cases h) fun _ => ?_
  refine Spec.bind ((applyCompliance_spec hid).and (qm.applyCompliance_side S f₁ (.refl f₁)))
    fun out f₂ hout => ?_
  obtain ⟨hout, hacc, -⟩ := hout
  · rcases out with err | ⟨- | -, msg'⟩
    · exact nofun
    · obtain ⟨-, hfrom, hto, hdata⟩ := hout _ _ rfl
      refine spec_bind_aside (qm.trackReports_side S) fun err f₃ _ => ?_
      cases err with
      | some err => exact nofun
      | none =>
        refine (accept_posts hid ((hacc _ _ rfl).1 hmsg')).mono fun err f₄ hposted hnone => ?_
        obtain ⟨e, he, hefrom, heto, hedata⟩ := hposted hnone
        exact ⟨e, he, hefrom.trans hfrom, Subset.trans hto heto, hedata.trans hdata⟩
    · have hposted := (hout _ _ rfl).1 rfl
      exact (qm.persistSubmissionReceipt_side S ((hacc _ _ rfl).1 hmsg') _ (.refl _)).mono
        fun _ _ hwithin _ => hposted.mono hwithin.2.toGrows

end

/-- A bounce for the failure of `rcpt` is in the store, addressed to the sender. -/
def Fates.Bounced (f : Fates) (msg : Message) (rcpt : String) : Prop :=
  ∃ raw, (msg.fromAddr, rcpt, raw) ∈ f.drafts ∧
    ∃ e ∈ f.posted, e.fromAddr = "" ∧ msg.fromAddr ∈ e.toAddrs ∧ e.data = raw

theorem Fates.Bounced.mono (h : f.Bounced msg rcpt) (hgrows : f.Grows f') :
    f'.Bounced msg rcpt := by
  obtain ⟨raw, hdraft, e, he, hentry⟩ := h
  exact ⟨raw, hgrows.drafts hdraft, e, hgrows.posted he, hentry⟩

theorem bounceEach_spec (hid : hasPrefix id "sieve-" = false) (result : DeliveryResult)
    (rcpts : List String) :
    Spec (fates id Done) (qm.bounceEach msg result rcpts) f fun err f' => err = none →
      ∀ rcpt ∈ rcpts, msg.wantsDSN rcpt "FAILURE" = true → f'.Bounced msg rcpt := by
  induction rcpts generalizing f with
  | nil => exact fun _ rcpt h => by cases h
  | cons rcpt rest ih =>
    unfold QueueManager.bounceEach
    split
    · rename_i hunwanted
      refine ih.mono fun err f' h hnone r hr hwants => ?_
      rcases mem_cons.mp hr with rfl | hr
      · simp [hwants] at hunwanted
      · exact h hnone r hr hwants
    · refine spec_ask_aside hid trivial fun (raw : Except String (List UInt8)) => ?_
      cases raw with
      | error err => exact nofun
      | ok raw =>
        refine spec_ask_aside hid trivial fun (now : Time) => ?_
        have hbounce : ∀ data, Acceptable
            { toAddrs := [msg.fromAddr], data := data, createdAt := now,
              tier := tierEmergency, parentTraceID := msg.traceID, isBounce := true } :=
          fun _ => ⟨rfl, by simp, by simp⟩
        refine .bind (spec_aside (qm.enqueue_side (fates_sideways hid) (hbounce _))
          (enqueue_posts hid (hbounce _))) fun err f₁ henqueue => ?_
        obtain ⟨hposted, hwithin⟩ := henqueue
        cases err with
        | some err => exact nofun
        | none =>
          obtain ⟨e, he, hefrom, heto, hedata⟩ := hposted rfl
          have hbounced : f₁.Bounced msg rcpt :=
            ⟨raw, hwithin.drafts mem_cons_self, e, he, hefrom,
              heto mem_cons_self, hedata⟩
          refine (spec_aside (qm.bounceEach_side (fates_sideways hid) result rest) ih).mono
            fun err f₂ h hnone r hr hwants => ?_
          rcases mem_cons.mp hr with rfl | hr
          · exact hbounced.mono h.2.toGrows
          · exact h.1 hnone r hr hwants

/-- A failure is answered by a bounce, by a suppression on record, or there is
nobody to notify of it. -/
inductive Fates.Answered (qm : QueueManager) (f : Fates) (msg : Message) (rcpt : String) : Prop
  | bounced (h : f.Bounced msg rcpt)
  | suppressed (h : qm.suppress = true) (haudit : msg.id ∈ f.audited)
  | nobody (h : msg.nullSender = true ∨ msg.isBounce = true ∨
      msg.wantsDSN rcpt "FAILURE" = false)

theorem Fates.Answered.mono (h : f.Answered qm msg rcpt) (hgrows : f.Grows f') :
    f'.Answered qm msg rcpt := by
  cases h with
  | bounced h => exact .bounced (h.mono hgrows)
  | suppressed h haudit => exact .suppressed h (hgrows.audited haudit)
  | nobody h => exact .nobody h

theorem generateBounce_spec (hid : hasPrefix id "sieve-" = false) (result : DeliveryResult)
    (rcpts : List String) :
    Spec (fates id Done) (qm.generateBounce msg result rcpts) f fun err f' => err = none →
      ∀ rcpt ∈ rcpts, f'.Answered qm msg rcpt := by
  unfold QueueManager.generateBounce
  split
  · rename_i hsuppress
    refine spec_ask_aside hid trivial fun (err : Option String) => ?_
    rintro rfl rcpt _
    exact .suppressed hsuppress mem_cons_self
  · split
    · rename_i hnull
      exact fun _ rcpt _ => .nobody (.inl hnull)
    · split
      · rename_i hbounce
        exact fun _ rcpt _ => .nobody (.inr (.inl hbounce))
      · refine (bounceEach_spec hid result rcpts).mono fun err f' h hnone rcpt hrcpt => ?_
        by_cases hwants : msg.wantsDSN rcpt "FAILURE" = true
        · exact .bounced (h hnone rcpt hrcpt hwants)
        · exact .nobody (.inr (.inr (eq_false_iff.mpr hwants)))

/-! ### Attempts -/

/-- What may have become of a recipient. -/
inductive Fates.Settled (qm : QueueManager) (f : Fates) (msg : Message) (rcpt : String) : Prop
  | accepted (h : rcpt ∈ f.wire.acknowledged)
  | stored (h : msg.id ++ "/" ++ rcpt ∈ f.stored)
  | scripted (h : rcpt ∈ f.scripted)
  | refused (h : rcpt ∈ f.refused) (hanswer : f.Answered qm msg rcpt)
  | suppressed (h : recipientSuppressed qm rcpt = true) (hanswer : f.Answered qm msg rcpt)

theorem Fates.Settled.mono (h : f.Settled qm msg rcpt) (hgrows : f.Grows f') :
    f'.Settled qm msg rcpt := by
  cases h with
  | accepted h => exact .accepted (hgrows.acknowledged _ h)
  | stored h => exact .stored (hgrows.stored h)
  | scripted h => exact .scripted (hgrows.scripted h)
  | refused h hanswer => exact .refused (hgrows.refused h) (hanswer.mono hgrows)
  | suppressed h hanswer => exact .suppressed h (hanswer.mono hgrows)

/-- A mailbox delivery without an error has run a script or stored a copy. -/
theorem deliverMailbox_spec (hid : hasPrefix id "sieve-" = false) (rcpt : String) :
    Spec (fates id Done) (qm.deliverMailbox msg rcpt) f fun out f' => out = .ok none →
      f'.Settled qm msg rcpt := by
  have S : Sideways (fates id Done) Fates.Within := fates_sideways hid
  refine spec_bind_aside (quiet_ite (S.askLast trivial) (S.quiet _)) fun user f₁ _ => ?_
  cases user with
  | none => exact nofun
  | some username =>
    refine spec_bind_aside (qm.findScript_side S username) fun file f₂ _ => ?_
    cases file with
    | failed err => exact nofun
    | found script =>
      refine spec_ask_aside hid trivial fun (err : Option String) => ?_
      cases err with
      | some err => exact nofun
      | none =>
        -- whatever the script orders, the recipient was left to it
        exact ((qm.runScript_side S username script rcpt) _ (.refl _)).mono
          fun _ f₃ hwithin _ => .scripted (hwithin.2.scripted mem_cons_self)
    | missing =>
      refine spec_ask_aside hid trivial fun (copied : Except String String) => ?_
      cases copied with
      | error err => exact nofun
      | ok _ =>
        refine spec_bind_aside (qm.sendDSN_side S rcpt _ _) fun err f₃ hwithin => ?_
        cases err with
        | some err => exact nofun
        | none => exact fun _ => .stored (hwithin.stored mem_cons_self)

theorem deliverLocal_spec (hid : hasPrefix id "sieve-" = false) (rcpt : String) :
    Spec (fates id Done) (qm.deliverLocal msg none [rcpt]) f fun err f' => err = none →
      f'.Settled qm msg rcpt := by
  refine (deliverMailbox_spec hid rcpt).bind fun out f' hout => ?_
  rcases out with err | - | err
  · exact nofun
  · exact fun _ => hout rfl
  · exact nofun

/-- The one outcome of a delivery to one address. -/
theorem Complete.single {w : Wire} (h : Complete [rcpt] w result err)
    (hdomain : (addressDomain rcpt).isSome) :
    ∃ o, result.recipients = [o] ∧ o.recipient = rcpt := by
  have houtcomes := h.outcomes
  rw [filter_singleton, hdomain] at houtcomes
  obtain ⟨o, ho, hrcpt⟩ := map_eq_singleton_iff.mp (perm_singleton.mp houtcomes)
  exact ⟨o, ho, hrcpt⟩

/-- The failures `deliverRemote` does not report are permanent, and answered. -/
theorem concludeRemote_spec (hid : hasPrefix id "sieve-" = false)
    (hdomain : (addressDomain rcpt).isSome) (hcomplete : Complete [rcpt] f.wire result err)
    (hcurrent : f.current = rcpt) (hmarked : f.wire.refused = true → f.current ∈ f.refused) :
    Spec (fates id Done) (qm.concludeRemote msg (some result) err) f fun e f' => e = none →
      f'.Settled qm msg rcpt := by
  obtain ⟨o, ho, hrcpt⟩ := hcomplete.single hdomain
  have hgrounded := hcomplete.grounded o (by rw [ho]; exact mem_cons_self)
  by_cases hs : o.success = true
  · -- delivered: whatever follows, the acknowledgement stays
    refine ((qm.concludeRemote_side (fates_sideways hid) _ err) f (.refl f)).mono
      fun _ f' hwithin _ => ?_
    rw [← hrcpt]
    exact .accepted (hwithin.2.acknowledged _ (hgrounded.1 hs))
  · have herr : err ≠ none := by
      intro hnone
      have hall := hcomplete.success_iff.mp (hcomplete.err_iff.mp hnone)
      exact hs (hall o (by rw [ho]; exact mem_cons_self))
    obtain ⟨err, rfl⟩ := Option.ne_none_iff_exists'.mp herr
    have hfailed : o.success = false := Bool.eq_false_iff.mpr hs
    unfold QueueManager.concludeRemote QueueManager.handleRecipientOutcomes
      QueueManager.resultHasTemporaryRecipient
    cases hpermanent : o.isPermanent with
    | true =>
      have hrefused : rcpt ∈ f.refused := hcurrent ▸ hmarked (hgrounded.2 hpermanent)
      simp only [ho, filter_singleton, any_cons, any_nil, hfailed, hpermanent,
        hrcpt, Bool.not_false, Bool.not_true, Bool.and_true, Bool.and_false, Bool.or_false,
        Bool.false_eq_true, if_false, cond_true, map_cons, map_nil, reduceCtorEq]
      refine (spec_aside (qm.generateBounce_side (fates_sideways hid) _ [rcpt])
        (generateBounce_spec hid result [rcpt])).bind fun e f' h => ?_
      obtain ⟨hanswered, hwithin⟩ := h
      cases e with
      | some e => exact nofun
      | none =>
        exact fun _ => .refused (hwithin.refused hrefused)
          (hanswered rfl rcpt mem_cons_self)
    | false =>
      simp only [ho, filter_singleton, any_cons, any_nil, hfailed, hpermanent,
        Bool.not_false, Bool.and_false, Bool.and_true, Bool.or_false, cond_false, map_nil,
        if_true]
      exact nofun

/-- `Deliver` under the eyes of `fates`. -/
theorem deliver_fates {sender : String} {message : List UInt8} :
    Spec (fates id Done) ((deliver qm.tables qm.delivery sender [rcpt] message).lift netInclusion)
      f fun out f' => ∃ result, out.1 = some result ∧ Complete [rcpt] f'.wire result out.2 := by
  refine spec_lift.mpr (Spec.view Fates.wire (deliver_spec (cons_ne_nil _ _)) ?_ ?_ ?_)
  · intro f q _ e h
    cases h
  · intro f q r _
    trivial
  · intro f q r
    rfl

theorem deliverRemote_spec (hid : hasPrefix id "sieve-" = false)
    (hdomain : (addressDomain rcpt).isSome) (hcurrent : f.current = rcpt)
    (hmarked : f.wire.refused = true → f.current ∈ f.refused) :
    Spec (fates id Done) (qm.deliverRemote msg [rcpt]) f fun err f' => err = none →
      f'.Settled qm msg rcpt := by
  refine spec_ask_aside hid trivial fun (signed : Except String (Option (List UInt8))) => ?_
  cases signed with
  | error err => exact nofun
  | ok signed =>
    refine (spec_aside (QueueManager.lift_side (fates_sideways hid) _) deliver_fates).bind
      fun out f₁ hout => ?_
    obtain ⟨⟨result, hresult, hcomplete⟩, hwithin⟩ := hout
    obtain ⟨result', err⟩ := out
    obtain rfl : result' = some result := hresult
    have S : Sideways (fates id Done) Fates.Within := fates_sideways hid
    refine spec_bind_aside (quiet_ite (qm.sendDSNs_side S _ _ _) (S.quiet _))
      fun notified f₂ hwithin₂ => ?_
    cases notified with
    | some e => exact nofun
    | none =>
      refine spec_bind_aside (quiet_ite (S.askLast trivial) (S.quiet _))
        fun _ f₃ hwithin₃ => ?_
      have hrest := hwithin₂.trans hwithin₃
      have hall := hwithin.trans hrest
      exact concludeRemote_spec hid hdomain (hcomplete.mono hrest.wire)
        (hall.current.trans hcurrent) (hall.marked hmarked)

/-- An attempt that ends without an error has settled its recipient. -/
theorem attempt_spec (hid : hasPrefix id "sieve-" = false) (hdomain : (addressDomain rcpt).isSome)
    (hcurrent : f.current = rcpt) (hmarked : f.wire.refused = true → f.current ∈ f.refused) :
    Spec (fates id Done) (qm.attempt msg rcpt) f fun err f' => err = none →
      f'.Settled qm msg rcpt := by
  -- the copy for one recipient differs from the message in its recipients only
  have hcopy : ∀ {f'}, Fates.Settled qm f' { msg with toAddrs := [rcpt] } rcpt →
      f'.Settled qm msg rcpt := by
    intro f' h
    have hanswer : f'.Answered qm { msg with toAddrs := [rcpt] } rcpt →
        f'.Answered qm msg rcpt := by
      rintro (h | ⟨h, haudit⟩ | h)
      · exact .bounced h
      · exact .suppressed h haudit
      · exact .nobody h
    cases h with
    | accepted h => exact .accepted h
    | stored h => exact .stored h
    | scripted h => exact .scripted h
    | refused h ha => exact .refused h (hanswer ha)
    | suppressed h ha => exact .suppressed h (hanswer ha)
  unfold QueueManager.attempt
  dsimp only
  split
  · rename_i hsuppressed
    refine (generateBounce_spec hid _ [rcpt]).mono fun err f' h hnone => hcopy ?_
    exact .suppressed hsuppressed (h hnone rcpt mem_cons_self)
  · split
    · exact (deliverLocal_spec hid rcpt).mono fun _ _ h hnone => hcopy (h hnone)
    · exact (deliverRemote_spec hid hdomain hcurrent hmarked).mono
        fun _ _ h hnone => hcopy (h hnone)

/-! ### The loop -/

theorem acquire_spec (rcpt : String) :
    Spec (fates id Done) (qm.acquire rcpt) f fun _ f' => f' = f := by
  refine spec_ite (fun _ => ⟨fun e h => ?_, fun _ _ => rfl⟩) fun _ => rfl
  cases h

theorem finalizeDelivery_failed (e : String) :
    Spec (fates id Done) (QueueManager.finalizeDelivery msg (some e)) f fun _ f' => f.Within f' :=
  spec_within (by simp) (by simp) fun _ _ h => h

/-- One attempt within the loop, marks included. -/
theorem attempt_marked (hid : hasPrefix id "sieve-" = false) {g : Option String → Queue γ}
    (h : ∀ err f', f.Grows f' → (err = none → (addressDomain rcpt).isSome →
      f'.Settled qm msg rcpt) → Spec (fates id Done) (g err) f' R) :
    Spec (fates id Done) (do
      query (S := queueSignature) (.beginAttempt msg.id rcpt)
      let err ← qm.attempt msg rcpt
      qm.release rcpt
      query (S := queueSignature) (.endAttempt msg.id rcpt err)
      g err) f R := by
  refine ⟨nofun, fun _ _ => ?_⟩
  have hattempt : Spec (fates id Done) (qm.attempt msg rcpt)
      { f with wire := { f.wire with refused := false }, current := rcpt }
      fun err f' => err = none → (addressDomain rcpt).isSome → f'.Settled qm msg rcpt := by
    by_cases hdomain : (addressDomain rcpt).isSome
    · refine (attempt_spec hid hdomain rfl fun h => ?_).mono fun _ _ h hnone _ => h hnone
      cases h
    · exact ((qm.attempt_side (fates_sideways hid) rcpt) _ (.refl _)).mono
        fun _ _ _ _ h => absurd h hdomain
  refine (spec_aside (qm.attempt_side (fates_sideways hid) rcpt) hattempt).bind
    fun err f₁ hattempt => ?_
  refine spec_bind_aside (qm.release_side (fates_sideways hid) rcpt) fun _ f₂ hwithin => ?_
  refine spec_ask_still nofun (fun _ => rfl) fun _ => ?_
  have hbegin : f.Grows { f with wire := { f.wire with refused := false }, current := rcpt } :=
    { Fates.Grows.refl f with }
  refine h err f₂ (hbegin.trans (hattempt.2.trans hwithin).toGrows) fun hnone hdomain => ?_
  exact (hattempt.1 hnone hdomain).mono hwithin.toGrows

/-- If the loop comes to its end without an error, the recipients of `rcpts` are
settled, like those before them. -/
theorem deliverEach_spec (hid : hasPrefix msg.id "sieve-" = false) {started : Bool}
    {remaining rcpts : List String} {deliveryErr : Option String} (settled : List String)
    (hsettled : deliveryErr = none → ∀ rcpt ∈ settled, (addressDomain rcpt).isSome →
      f.Settled qm msg rcpt) :
    Spec (fates msg.id Done) (qm.deliverEach msg started remaining deliveryErr rcpts) f
      fun out f' => ∀ left, out = some (left, none) → ∀ rcpt ∈ settled ++ rcpts,
        (addressDomain rcpt).isSome → f'.Settled qm msg rcpt := by
  induction rcpts generalizing f started remaining settled deliveryErr with
  | nil =>
    intro left hout rcpt hrcpt
    cases hout
    rw [append_nil] at hrcpt
    exact hsettled rfl rcpt hrcpt
  | cons rcpt rest ih =>
    unfold QueueManager.deliverEach
    refine spec_bind_aside (qm.paused_side (fates_sideways hid) _) fun paused f₁ h₁ => ?_
    split
    · split
      · -- paused midway: there is an error now
        intro left hout
        have herr : joinErr deliveryErr (some "sender paused by mailstorm protection") = none :=
          congrArg Prod.snd (Option.some.inj hout)
        exact absurd (joinErr_eq_none.mp herr).2 (Option.some_ne_none _)
      · exact tryTransition_within.bind fun _ _ _ _ hout => by cases hout
    · refine (acquire_spec rcpt).bind fun acquired f₂ h₂ => ?_
      subst h₂
      split
      · refine .bind (spec_ite (fun _ => .refl _) fun _ => tryTransition_within)
          fun owned f₃ h₃ => ?_
        split
        · refine attempt_marked hid fun err f₄ h₄ hattempt => ?_
          refine spec_ask_still nofun (fun _ => rfl)
            fun (checkpoint : Except String Answer) => ?_
          cases checkpoint with
          | error e =>
            exact (finalizeDelivery_failed e).bind fun _ _ _ _ hout => by cases hout
          | ok _ =>
            refine (ih (settled ++ [rcpt]) ?_).mono
              fun out f' h left hout r hr => h left hout r ?_
            · intro hnone r hr hdomain
              obtain ⟨hbefore, herr⟩ := joinErr_eq_none.mp hnone
              rcases mem_append.mp hr with hr | hr
              · apply (hsettled hbefore r hr hdomain).mono
                exact (h₁.trans h₃).toGrows.trans h₄
              · obtain rfl := mem_singleton.mp hr
                exact hattempt herr hdomain
            · rwa [append_assoc]
        · exact spec_bind_aside (qm.release_side (fates_sideways hid) rcpt)
            fun _ _ _ _ hout => by cases hout
      · -- deferred: there is an error now
        refine (ih (settled ++ [rcpt]) ?_).mono fun out f' h left hout r hr => h left hout r ?_
        · exact fun hnone => absurd (joinErr_eq_none.mp hnone).2 (Option.some_ne_none _)
        · rwa [append_assoc]

end Specs

/-- Every recipient with a domain is settled. -/
def AllSettled (qm : QueueManager) (msg : Message) (f : Fates) : Prop :=
  ∀ rcpt ∈ msg.toAddrs, rcpt.toList.count '@' = 1 → f.Settled qm msg rcpt

theorem processMessage_spec {qm : QueueManager} {msg : Message} {f : Fates}
    (hid : hasPrefix msg.id "sieve-" = false) (hcustody : qm.inCustody msg = false) :
    Spec (fates msg.id (AllSettled qm msg)) (qm.processMessage msg) f fun _ _ => True := by
  unfold QueueManager.processMessage
  rw [if_neg (by rw [hcustody]; exact false_ne_true)]
  refine spec_bind_aside (qm.paused_side (fates_sideways hid) _) fun paused f₁ _ => ?_
  split
  · exact tryTransition_within.bind fun _ _ _ => trivial
  · refine spec_within (by simp) (by simp) fun (limited : Option String) f₂ _ => ?_
    cases limited with
    | some err => exact tryTransition_within.bind fun _ _ _ => trivial
    | none =>
      unfold QueueManager.deliverAll
      refine (deliverEach_spec hid [] fun _ r hr => by cases hr).bind fun out f₃ hout => ?_
      rcases out with - | ⟨left, deliveryErr⟩
      · trivial
      · refine spec_ask_still nofun (fun _ => rfl)
          fun (checkpoint : Except String Answer) => ?_
        cases checkpoint with
        | error e => exact (finalizeDelivery_failed e).mono fun _ _ _ => trivial
        | ok _ =>
          cases deliveryErr with
          | some e => exact (finalizeDelivery_failed e).mono fun _ _ _ => trivial
          | none =>
            -- the one place where the message is marked
            refine ⟨fun e _ rcpt hrcpt hcount => ?_,
              fun (marked : Except String Answer) _ => ?_⟩
            · apply hout left rfl rcpt hrcpt
              exact (addressDomain_isSome rcpt).mpr hcount
            · cases marked with
              | ok _ => trivial
              | error e =>
                exact spec_within (by simp) (by simp) fun _ _ _ => trivial

/-- What is on record after some events. -/
def Fates.after (tr : List (Program.Event queueSignature)) : Fates :=
  tr.foldl (fun f e => f.track e.1 e.2) {}

/-! ### Two messages nobody received -/

/-- A queue manager without optional components. -/
def bareManager : QueueManager where
  tables := asciiTables
  codec :=
    { marshalMessage := fun _ => .ok "message"
      unmarshalMessage := fun _ => {}
      parseMessage := fun _ => .ok {}
      marshalAction := fun _ => .ok "plan"
      unmarshalAction := fun _ => .error "unexpected end of JSON input"
      hashParts := fun parts => join parts "-"
      noticeKey := fun event rcpt => event ++ rcpt
      contentHash := fun _ => ""
      withOriginalIP := fun _ data => data }
  ext := bareExternals
  delivery := {}
  policy := ⟨10, fun _ => 0⟩

/-- A stable sort by creation. -/
def sortedByCreation (entries : List JournalEntry) :
    { l : List JournalEntry // l.Perm entries ∧ l.Pairwise fun a b => a.createdAt ≤ b.createdAt } :=
  ⟨entries.mergeSort fun a b => decide (a.createdAt ≤ b.createdAt), mergeSort_perm _ _, by
    have hsorted : (entries.mergeSort fun a b => decide (a.createdAt ≤ b.createdAt)).Pairwise
        fun a b => decide (a.createdAt ≤ b.createdAt) = true :=
      pairwise_mergeSort (fun a b c => by simpa using Int.le_trans)
        (fun a b => by simpa using Int.le_total _ _) entries
    simpa using hsorted⟩

/-- Surroundings in which no domain exists and everything else goes well. -/
def noDomains : (q : QueueQuery) → q.Reply
  | .net (.lookupMailMX _) => (.error ⟨"no such host", true⟩ : Except DNSFailure (List MX))
  | .net (.shouldEnforceTLS ..) => (.ok false : Except String Bool)
  | .net .now => (0 : Time)
  | .net (.range keys) => (⟨keys, .refl _⟩ : { order : List String // order.Perm keys })
  | .net (.dialSMTP _) => (none : Option String)
  | .net (.dialNextHop _) => (none : Option String)
  | .net (.mail _) => (none : Option String)
  | .net (.rcpt _) => (none : Option String)
  | .net .data => (none : Option String)
  | .net (.write _) => (none : Option String)
  | .net .closeData => (none : Option String)
  | .store (.transition ..) => (.ok (.flag true) : Except String Answer)
  | .store _ => (.ok .done : Except String Answer)
  | .get _ => (.error "message not found" : Except String JournalEntry)
  | .listByStatus .. => ([] : List JournalEntry)
  | .audit .. => (none : Option String)
  | .send .. => SendReply.sent
  | .now => (0 : Time)
  | .uuid => (⟨String.ofList (replicate 36 '0'), by simp, by simp⟩ : UUID)
  | .blocked _ => false
  | .wait _ => (none : Option String)
  | .acquire _ => true
  | .release _ => ()
  | .observe .. => ()
  | .beginAttempt .. => ()
  | .endAttempt .. => ()
  | .recipient _ => (none : Option String)
  | .readScript _ => ScriptFile.missing
  | .emailContext .. => (none : Option String)
  | .evaluateSieve .. => (.error "no script" : Except String SieveAction)
  | .deliverOnce .. => (.error "no mailbox" : Except String String)
  | .sign _ => (.ok none : Except String (Option (List UInt8)))
  | .generateBounce .. => (.ok [] : Except String (List UInt8))
  | .parseReport _ => (.ok none : Except String (Option String))
  | .redirectCopy data => (.ok data : Except String (List UInt8))
  | .vacationReply .. => (.ok none : Except String (Option VacationReply))
  | .scan _ => (none : Option String)
  | .sortByCreation entries => sortedByCreation entries

/-- A recipient with two '@'. -/
def twoAts : Message := { id := "m1", fromAddr := "s@x", toAddrs := ["a@b@c"] }

/-- A message from the null sender. -/
def notice : Message := { id := "m2", toAddrs := ["b@y"] }

/-- Marked delivered at the end of its run, with nothing acknowledged, stored,
scripted or bounced before. -/
def LostRun (msg : Message) : Prop :=
  ∃ before, ((bareManager.processMessage msg).play (fun _ => noDomains) []).1 =
      before ++ [⟨.store (.updateStatus msg.id "delivered" ""), .ok .done⟩] ∧
    (Fates.after before).wire.acknowledged = [] ∧ (Fates.after before).stored = [] ∧
    (Fates.after before).scripted = [] ∧ (Fates.after before).posted = [] ∧
    (Fates.after before).audited = []

end EmailService
