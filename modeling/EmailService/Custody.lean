/-
EmailService/Custody.lean

Compliance obligations (internal/smtpd/compliance.go, internal/compliance/engine.go).

A message that a hold or reroute rule matches goes into custody: `Enqueue` does not
accept it, and `processMessage` takes it out of the queue before its delivery.
`Preserved` says what is left of it then: one custody record under the strictest
terms of all these rules, and a record of every other rule that matches.
`strictest_rule` says that both ways lead there and nowhere else, whatever the
store, the clock and the audit log reply, and that the terms do not depend on the
order of the rules.
-/
import EmailService.Disposal
import EmailService.MailAddress

namespace EmailService.Custody

open GoStrings Program List Bool

/-! ### Rules that are accepted -/

/-- The part of `Validate` about the rules; `names` are those seen before. -/
def validateRules (names : List String) : List Rule → Option String
  | [] => none
  | r :: rules =>
    if r.name = "" ∨ 128 < r.name.utf8ByteSize ∨ r.name ∈ names ∨
        r.name.toList.any ['/', '\r', '\n'].contains then
      some "invalid or duplicate compliance rule name"
    else if r.domain = "" ∨ r.domain.toList.any [' ', ',', '@', '/', '\r', '\n'].contains ∨
        r.domain = "*" then
      some "compliance requires an explicit domain"
    else if r.retention < 0 then some "negative compliance retention"
    else if r.mode = .bcc ∧ ((NetMail.parseAddress (r.bcc.toList.map some)).map
        NetMail.Address.address ≠ some r.bcc ∨ r.bcc.toList.any ['\r', '\n'].contains) then
      some "invalid compliance BCC"
    else validateRules (r.name :: names) rules

variable {rules : List Rule} {c : Rule} {U : CaseTables}

theorem retention_nonneg {names : List String} (h : validateRules names rules = none) :
    ∀ r ∈ rules, 0 ≤ r.retention := by
  induction rules generalizing names with
  | nil => exact nofun
  | cons r rules ih =>
    rw [validateRules] at h
    split_ifs at h with hname hdomain hretention hbcc
    exact forall_mem_cons.mpr ⟨not_lt.mp hretention, ih h⟩

/-! ### What is recorded -/

/-- The records, the audit events, the times read, and whether the message was closed. -/
structure Ledger where
  records : List JournalEntry := []
  audits : List (String × String × String) := []
  clocks : List Time := []
  closed : Bool := false

/-- The receipts that come with a message. -/
def receipts (msg : Message) : List JournalEntry :=
  msg.submissionReceipt.toList ++ msg.extraReceipts

/-- The ledger of a message in custody.  The message is not handed to a channel, a host or a
mailbox; nothing is stored but compliance records and its receipts. -/
def ledger (msg : Message) : Monitor queueSignature Ledger where
  track l
    | .store (.storeWithReceipt entry others), (.ok _ : Except String Answer) =>
      { l with
        records := l.records ++ (entry :: others.reduceOption).filter (·.tier = "compliance") }
    | .store (.updateStatus _ status _), _ => { l with closed := l.closed || status = "delivered" }
    | .audit actor action id, (none : Option String) =>
      { l with audits := l.audits ++ [(actor, action, id)] }
    | .now, (t : Time) => { l with clocks := l.clocks ++ [t] }
    | _, _ => l
  Allows _
    | .store (.storeWithReceipt entry others) => ∀ e ∈ entry :: others.reduceOption,
        e.tier = "compliance" ∧ e.status = "compliance" ∨
          ∃ r ∈ receipts msg, e.messageID = r.messageID ∧ e.tier = r.tier ∧ e.status = r.status
    | .store (.transition id source target) =>
      id = msg.id ∧ source = "queued" ∧ target = "processing"
    | .store (.updateStatus id status _) =>
      id = msg.id ∧ (status = "delivered" ∨ status = "pending")
    | .audit .. => True
    | .now => True
    | .uuid => True
    | _ => False

section Terms

variable (qm : QueueManager) (msg : Message)

/-- The rules that match a message. -/
def matching : List Rule := evaluate qm.tables qm.rules msg.fromAddr msg.toAddrs

/-- Those of them that take custody. -/
def custodyRules : List Rule := (matching qm msg).filter (·.takesCustody)

/-- The terms of the one rule that stands for them. -/
def terms : Option (Bool × Duration) :=
  (combineRules qm.tables (matching qm msg)).map fun c => (c.legalHold, c.retention)

/-- The record is for rules that take custody. -/
def isCustody (e : JournalEntry) : Bool := e.meta "mode" = "hold" || e.meta "mode" = "reroute"

/-- A record that stands for some rules, under the strictest of their terms. -/
structure Strictest (rules : List Rule) (clocks : List Time) (e : JournalEntry) : Prop where
  names : e.meta "rule" = join (rules.map Rule.name) ","
  legalHold : e.meta "legal_hold" = toString (rules.any Rule.legalHold)
  infinite : (∃ r ∈ rules, r.retention = 0) → e.metadata["retain_until"]? = none
  longest : (∀ r ∈ rules, r.retention ≠ 0) →
    ∃ r ∈ rules, (∀ r' ∈ rules, r'.retention ≤ r.retention) ∧
      ∃ t ∈ clocks, e.metadata["retain_until"]? = some (qm.ext.formatRFC3339Nano (t + r.retention))

/-- What may be left of a message in custody at any time. -/
structure Kept (l : Ledger) : Prop where
  atMostOne : (l.records.filter isCustody).length ≤ 1
  custody : ∀ e ∈ l.records.filter isCustody, Strictest qm (custodyRules qm msg) l.clocks e
  evidence : ∀ e ∈ l.records,
    e.fromAddr = msg.fromAddr ∧ e.toAddrs = msg.toAddrs ∧ e.data = msg.data

/-- What is left of it when the call succeeds. -/
structure Preserved (l : Ledger) : Prop where
  custody : ∃ e, l.records.filter isCustody = [e]
  copies : ∀ r ∈ matching qm msg, r.mode = .copy →
    ∃ e ∈ l.records, e.meta "rule" = r.name ∧ e.meta "mode" = "copy"
  monitors : ∀ r ∈ matching qm msg, r.mode = .bcc →
    ∃ id, ("compliance:" ++ r.name, "bcc_policy_applied", id) ∈ l.audits

/-- A message that was not released from custody, with receipts that are no records. -/
structure Unreleased : Prop where
  bypass : msg.complianceBypass = false
  release : msg.complianceReleaseID = ""
  receipts : ∀ r ∈ receipts msg, r.tier ≠ "compliance"

end Terms

/-! ### The combined rule -/

/-- What one rule that stands for several amounts to. -/
structure Combined (rules : List Rule) (c : Rule) : Prop where
  legalHold : c.legalHold = rules.any Rule.legalHold
  infinite : (∃ r ∈ rules, r.retention = 0) → c.retention = 0
  longest : (∀ r ∈ rules, r.retention ≠ 0) →
    ∃ r ∈ rules, (∀ r' ∈ rules, r'.retention ≤ r.retention) ∧ c.retention = r.retention

theorem combined_singleton (r : Rule) : Combined [r] r where
  legalHold := by simp
  infinite := by simp
  longest _ := ⟨r, by simp⟩

theorem Combined.absorb (h : Combined rules c) (r : Rule) :
    Combined (rules ++ [r]) (c.absorb r) where
  legalHold := by simp [Rule.absorb, h.legalHold]
  infinite := by
    rintro ⟨s, hs, hzero⟩
    rcases mem_append.mp hs with hs | hs
    · exact if_pos (.inl (h.infinite ⟨s, hs, hzero⟩))
    · exact if_pos (.inr (mem_singleton.mp hs ▸ hzero))
  longest hall := by
    obtain ⟨s, hs, hmax, hc⟩ := h.longest fun s hs => hall s (mem_append_left _ hs)
    have hne : ¬(c.retention = 0 ∨ r.retention = 0) :=
      not_or.mpr ⟨hc ▸ hall s (mem_append_left _ hs), hall r (by simp)⟩
    by_cases hlt : c.retention < r.retention
    · refine ⟨r, by simp, fun r' hr' => ?_, (if_neg hne).trans (if_pos hlt)⟩
      rcases mem_append.mp hr' with hr' | hr'
      · exact (hmax r' hr').trans (hc ▸ hlt.le)
      · exact (mem_singleton.mp hr') ▸ le_rfl
    · refine ⟨s, mem_append_left _ hs, fun r' hr' => ?_,
        ((if_neg hne).trans (if_neg hlt)).trans hc⟩
      rcases mem_append.mp hr' with hr' | hr'
      · exact hmax r' hr'
      · exact (mem_singleton.mp hr') ▸ hc ▸ not_lt.mp hlt

theorem Combined.foldl (h : Combined rules c) (rest : List Rule) :
    Combined (rules ++ rest) (rest.foldl Rule.absorb c) := by
  induction rest generalizing rules c with
  | nil => simpa using h
  | cons r rest ih => simpa using ih (h.absorb r)

theorem name_foldl_absorb (r : Rule) (rest : List Rule) :
    (rest.foldl Rule.absorb r).name = join ((r :: rest).map Rule.name) "," := by
  induction rest generalizing r with
  | nil => rfl
  | cons x rest ih => exact ih (r.absorb x)

theorem mode_foldl_absorb (r : Rule) (rest : List Rule) :
    (rest.foldl Rule.absorb r).mode = r.mode := by
  induction rest generalizing r with
  | nil => rfl
  | cons x rest ih => exact ih (r.absorb x)

/-- The rule `applyCompliance` captures the message under. -/
structure Represents (rules : List Rule) (c : Rule) : Prop extends Combined rules c where
  name : c.name = join (rules.map Rule.name) ","
  custody : c.takesCustody = true

theorem combineRules_represents (h : combineRules U rules = some c) :
    Represents (rules.filter (·.takesCustody)) c := by
  unfold combineRules at h
  generalize hrules : rules.filter (·.takesCustody) = custody at h
  cases custody with
  | nil => cases h
  | cons r rest =>
    cases h
    have hc := (combined_singleton r).foldl rest
    have hr : r.takesCustody = true :=
      (mem_filter.mp (hrules ▸ mem_cons_self : r ∈ rules.filter (·.takesCustody))).2
    refine ⟨⟨hc.legalHold, hc.infinite, hc.longest⟩, name_foldl_absorb r rest, ?_⟩
    simpa [Rule.takesCustody, mode_foldl_absorb] using hr

theorem combineRules_isSome (h : ∃ r ∈ rules, r.takesCustody = true) :
    ∃ c, combineRules U rules = some c := by
  obtain ⟨r, hr, hcustody⟩ := h
  have hmem : r ∈ rules.filter (·.takesCustody) := mem_filter.mpr ⟨hr, hcustody⟩
  unfold combineRules
  split
  · next hnil => exact absurd hmem (by simp [hnil])
  · exact ⟨_, rfl⟩

/-- The terms are the same for any two rules that stand for the same ones. -/
theorem Combined.unique {rules' : List Rule} {c' : Rule} (h : Combined rules c)
    (h' : Combined rules' c') (hsame : ∀ r, r ∈ rules ↔ r ∈ rules') :
    c.legalHold = c'.legalHold ∧ c.retention = c'.retention := by
  constructor
  · rw [h.legalHold, h'.legalHold, Bool.eq_iff_iff]
    simp [hsame]
  · by_cases hzero : ∃ r ∈ rules, r.retention = 0
    · obtain ⟨r, hr, hr0⟩ := hzero
      rw [h.infinite ⟨r, hr, hr0⟩, h'.infinite ⟨r, (hsame r).mp hr, hr0⟩]
    · have hne : ∀ r ∈ rules, r.retention ≠ 0 := fun r hr h0 => hzero ⟨r, hr, h0⟩
      obtain ⟨r, hr, hmax, hc⟩ := h.longest hne
      obtain ⟨r', hr', hmax', hc'⟩ := h'.longest fun r hr => hne r ((hsame r).mpr hr)
      rw [hc, hc']
      exact le_antisymm (hmax' r ((hsame r).mp hr)) (hmax r' ((hsame r').mpr hr'))

theorem terms_perm {qm : QueueManager} {msg : Message} (h : rules.Perm qm.rules) :
    terms { qm with rules := rules } msg = terms qm msg := by
  have hperm : (matching { qm with rules := rules } msg).Perm (matching qm msg) := h.filter _
  have hsame (r : Rule) : r ∈ (matching { qm with rules := rules } msg).filter (·.takesCustody) ↔
      r ∈ custodyRules qm msg := (hperm.filter _).mem_iff
  unfold terms
  by_cases hcustody : ∃ r ∈ matching qm msg, r.takesCustody = true
  · obtain ⟨c, hc⟩ := combineRules_isSome (U := qm.tables) hcustody
    obtain ⟨c', hc'⟩ : ∃ c, combineRules qm.tables (matching { qm with rules := rules } msg) =
        some c := combineRules_isSome (hcustody.imp fun r hr => ⟨hperm.mem_iff.mpr hr.1, hr.2⟩)
    have hunique := (combineRules_represents hc').toCombined.unique
      (combineRules_represents hc).toCombined hsame
    rw [hc]
    dsimp only
    rw [hc', Option.map_some, Option.map_some, hunique.1, hunique.2]
  · have hnone : ∀ rules : List Rule, (∀ r ∈ rules, ¬r.takesCustody = true) →
        combineRules qm.tables rules = none := by
      intro rules hnot
      unfold combineRules
      rw [filter_eq_nil_iff.mpr hnot]
    have hnot : ∀ r ∈ matching qm msg, ¬r.takesCustody = true := fun r hr hc => hcustody ⟨r, hr, hc⟩
    dsimp only
    rw [hnone _ hnot, hnone _ fun r hr => hnot r (hperm.mem_iff.mp hr)]

/-! ### Captures -/

section Capture

variable {qm : QueueManager} {m msg : Message} {l l' l'' : Ledger}

/-- A record of a message under one rule. -/
structure Captured (qm : QueueManager) (msg : Message) (r : Rule) (clocks : List Time)
    (e : JournalEntry) : Prop where
  evidence : e.fromAddr = msg.fromAddr ∧ e.toAddrs = msg.toAddrs ∧ e.data = msg.data
  rule : e.meta "rule" = r.name
  mode : e.meta "mode" = r.mode.text
  legalHold : e.meta "legal_hold" = toString r.legalHold
  finite : 0 < r.retention → ∃ t ∈ clocks,
    e.metadata["retain_until"]? = some (qm.ext.formatRFC3339Nano (t + r.retention))
  infinite : ¬0 < r.retention → e.metadata["retain_until"]? = none

variable {r c : Rule} {clocks : List Time} {e : JournalEntry} {rules : List Rule}
  {es es₀ : List JournalEntry}

theorem Captured.mono {clocks' : List Time} (h : Captured qm msg r clocks e)
    (hsub : clocks ⊆ clocks') : Captured qm msg r clocks' e :=
  { h with finite := fun hr => (h.finite hr).imp fun _ ht => ⟨hsub ht.1, ht.2⟩ }

theorem Captured.isCustody_eq (h : Captured qm msg r clocks e) : isCustody e = r.takesCustody := by
  unfold isCustody Rule.takesCustody
  rw [h.mode]
  cases r.mode <;> rfl

/-- A record under a rule that stands for several has their strictest terms. -/
theorem Captured.strictest (h : Captured qm msg c clocks e) (hc : Represents rules c)
    (hnonneg : ∀ r ∈ rules, 0 ≤ r.retention) : Strictest qm rules clocks e where
  names := h.rule.trans hc.name
  legalHold := hc.legalHold ▸ h.legalHold
  infinite hzero := h.infinite (hc.infinite hzero ▸ lt_irrefl _)
  longest hne := by
    obtain ⟨r, hr, hmax, heq⟩ := hc.longest hne
    have hpos : 0 < c.retention := heq ▸ lt_of_le_of_ne (hnonneg r hr) (hne r hr).symm
    exact ⟨r, hr, hmax, heq ▸ h.finite hpos⟩

/-- Audit events and times are added; the message stays open. -/
structure Grows (l l' : Ledger) : Prop where
  audits : l.audits ⊆ l'.audits
  clocks : l.clocks ⊆ l'.clocks
  closed : l'.closed = l.closed

theorem Grows.refl (l : Ledger) : Grows l l := ⟨fun _ h => h, fun _ h => h, rfl⟩

theorem Grows.trans (h : Grows l l') (h' : Grows l' l'') : Grows l l'' :=
  ⟨fun _ hx => h'.audits (h.audits hx), fun _ hx => h'.clocks (h.clocks hx),
    h'.closed.trans h.closed⟩

/-- What the metadata of a capture say. -/
theorem captured_entry {retainUntil : Option Time} (id encoded : String)
    (hfinite : 0 < r.retention → ∃ t ∈ clocks, retainUntil = some (t + r.retention))
    (hinfinite : ¬0 < r.retention → retainUntil = none) :
    Captured qm msg r clocks
      { messageID := id, fromAddr := msg.fromAddr, toAddrs := msg.toAddrs, data := msg.data,
        tier := "compliance", status := "compliance",
        metadata := qm.captureMetadata msg r encoded retainUntil } := by
  have hmeta (key : String) (h : ¬compare "retain_until" key = .eq) :
      (qm.captureMetadata msg r encoded retainUntil).get key =
        (qm.captureMetadata msg r encoded none).get key := by
    cases retainUntil with
    | none => rfl
    | some t => exact (Std.ExtTreeMap.getD_insert).trans (if_neg h)
  refine ⟨⟨rfl, rfl, rfl⟩, (hmeta _ (by decide)).trans ?_, (hmeta _ (by decide)).trans ?_,
    (hmeta _ (by decide)).trans ?_, fun hr => ?_, fun hr => ?_⟩
  · simp [QueueManager.captureMetadata, Metadata.get, Std.ExtTreeMap.getD_insert]
  · simp [QueueManager.captureMetadata, Metadata.get, Std.ExtTreeMap.getD_insert]
  · simp [QueueManager.captureMetadata, Metadata.get, Std.ExtTreeMap.getD_insert]
  · obtain ⟨t, ht, rfl⟩ := hfinite hr
    exact ⟨t, ht, by simp [QueueManager.captureMetadata]⟩
  · obtain rfl := hinfinite hr
    simp [QueueManager.captureMetadata]

variable (actor action id : String) (err : Option String)

theorem grows_audit : Grows l ((ledger m).track l (.audit actor action id) err) := by
  cases err with
  | some err => exact .refl l
  | none => exact ⟨subset_append_left _ _, fun _ h => h, rfl⟩

theorem records_audit : ((ledger m).track l (.audit actor action id) err).records = l.records := by
  cases err <;> rfl

/-- `captureCompliance` adds one record, or none if it fails. -/
theorem captureCompliance_spec (r : Rule) : Spec (ledger m) (qm.captureCompliance msg r) l
    fun err l' => Grows l l' ∧ ∃ es : List JournalEntry, l'.records = l.records ++ es ∧
      (∀ e ∈ es, Captured qm msg r l'.clocks e) ∧ es.length ≤ 1 ∧ (err = none → es ≠ []) := by
  unfold QueueManager.captureCompliance
  split
  · exact ⟨.refl l, [], by simp⟩
  next encoded _ =>
  refine .bind (Q := fun retainUntil l' => Grows l l' ∧ l'.records = l.records ∧
    (0 < r.retention → ∃ t ∈ l'.clocks, retainUntil = some (t + r.retention)) ∧
    (¬0 < r.retention → retainUntil = none)) ?_ fun retainUntil l₁ h₁ => ?_
  · refine spec_ite (fun hr => ?_) fun hr => ⟨.refl l, rfl, fun h => absurd h hr, fun _ => rfl⟩
    refine spec_ask trivial fun (t : Time) _ => ⟨⟨fun _ h => h, ?_, rfl⟩, rfl, fun _ => ?_,
      fun h => absurd hr h⟩
    · exact subset_append_left _ _
    · exact ⟨t, mem_append_right _ mem_cons_self, rfl⟩
  obtain ⟨hgrows, hrecords, hfinite, hinfinite⟩ := h₁
  refine spec_ask trivial fun (id : UUID) _ => spec_ask trivial fun (err : Option String) _ => ?_
  have hgrows' := hgrows.trans (grows_audit (m := m) ("compliance:" ++ r.name)
    ("capture_requested:" ++ qm.ext.evidenceHash msg.fromAddr msg.toAddrs msg.data) id.1 err)
  cases err with
  | some err => exact ⟨hgrows', [], hrecords.trans (append_nil _).symm, by simp⟩
  | none =>
    refine spec_ask ?_ fun (reply : Except String Answer) _ => ?_
    · exact fun e he => .inl (mem_singleton.mp he ▸ ⟨rfl, rfl⟩)
    · cases reply with
      | error err =>
        exact ⟨hgrows', [], hrecords.trans (append_nil _).symm, by simp [storeError]⟩
      | ok answer =>
        refine ⟨⟨hgrows'.audits, hgrows'.clocks, hgrows'.closed⟩, [_],
          congrArg (· ++ _) hrecords, fun e he => ?_, le_rfl, fun _ => by simp⟩
        rw [mem_singleton.mp he]
        exact captured_entry id.1 encoded hfinite hinfinite

/-- The rules of the loop have left their records, each under its own. -/
structure Applied (qm : QueueManager) (msg : Message) (rules : List Rule) (l l' : Ledger)
    (es : List JournalEntry) : Prop where
  grows : Grows l l'
  records : l'.records = l.records ++ es
  captured : ∀ e ∈ es, ∃ r ∈ rules, r.takesCustody = false ∧ Captured qm msg r l'.clocks e

/-- Every rule of the loop is recorded. -/
structure AllApplied (rules : List Rule) (l' : Ledger) (es : List JournalEntry) : Prop where
  copies : ∀ r ∈ rules, r.mode = .copy → ∃ e ∈ es, e.meta "rule" = r.name ∧ e.meta "mode" = "copy"
  monitors : ∀ r ∈ rules, r.mode = .bcc →
    ∃ id, ("compliance:" ++ r.name, "bcc_policy_applied", id) ∈ l'.audits

theorem Applied.cons (h : Applied qm msg rules l' l'' es) (hgrows : Grows l l')
    (hrecords : l'.records = l.records ++ es₀)
    (hes₀ : ∀ e ∈ es₀, r.takesCustody = false ∧ Captured qm msg r l'.clocks e) :
    Applied qm msg (r :: rules) l l'' (es₀ ++ es) where
  grows := hgrows.trans h.grows
  records := by rw [h.records, hrecords, append_assoc]
  captured e he := by
    rcases mem_append.mp he with he | he
    · exact ⟨r, mem_cons_self, (hes₀ e he).1, (hes₀ e he).2.mono h.grows.clocks⟩
    · exact (h.captured e he).imp fun r' hr' => ⟨mem_cons_of_mem _ hr'.1, hr'.2⟩

theorem AllApplied.cons (h : AllApplied rules l' es)
    (hcopy : r.mode = .copy → ∃ e ∈ es₀, e.meta "rule" = r.name ∧ e.meta "mode" = "copy")
    (hbcc : r.mode = .bcc → ∃ id, ("compliance:" ++ r.name, "bcc_policy_applied", id) ∈ l'.audits) :
    AllApplied (r :: rules) l' (es₀ ++ es) where
  copies r' hr' hmode := by
    rcases mem_cons.mp hr' with rfl | hr'
    · exact (hcopy hmode).imp fun e he => ⟨mem_append_left _ he.1, he.2⟩
    · exact (h.copies r' hr' hmode).imp fun e he => ⟨mem_append_right _ he.1, he.2⟩
  monitors r' hr' hmode := by
    rcases mem_cons.mp hr' with rfl | hr'
    · exact hbcc hmode
    · exact h.monitors r' hr' hmode

/-- The loop over the rules, for a message in custody: its recipients stay as they are. -/
theorem applyRules_spec (rules : List Rule) : Spec (ledger m) (qm.applyRules true msg rules) l
    fun out l' => ∃ es, Applied qm msg rules l l' es ∧
      ∀ msg', out = .ok msg' → msg' = msg ∧ AllApplied rules l' es := by
  induction rules generalizing l with
  | nil =>
    refine ⟨[], ⟨.refl l, (append_nil _).symm, by simp⟩, fun msg' h => ?_⟩
    cases h
    exact ⟨rfl, by simp, by simp⟩
  | cons r rules ih =>
    refine spec_ite (fun hr => ?_) fun hr => spec_ite (fun hbcc => ?_) fun hbcc => ?_
    · -- a custody rule was captured with the others before
      refine ih.mono fun out l' ⟨es, happlied, hall⟩ => ?_
      refine ⟨[] ++ es, happlied.cons (.refl l) (by simp) (by simp), fun msg' hout => ?_⟩
      refine ⟨(hall msg' hout).1, (hall msg' hout).2.cons (fun h => ?_) fun h => ?_⟩ <;>
        simp [Rule.takesCustody, h] at hr
    · refine spec_ask trivial fun (err : Option String) _ => ?_
      have hgrows := grows_audit (m := m) (l := l) ("compliance:" ++ r.name) "bcc_policy_applied"
        msg.id err
      cases err with
      | some err => exact ⟨[], ⟨hgrows, (append_nil _).symm, by simp⟩, by simp⟩
      | none =>
        refine ih.mono fun out l' ⟨es, happlied, hall⟩ => ?_
        refine ⟨[] ++ es, happlied.cons hgrows (by simp [records_audit]) (by simp),
          fun msg' hout => ⟨(hall msg' hout).1, (hall msg' hout).2.cons (fun h => ?_)
            fun _ => ?_⟩⟩
        · exact absurd (hbcc.symm.trans h) (by decide)
        · exact ⟨msg.id, happlied.grows.audits (mem_append_right _ mem_cons_self)⟩
    · refine (captureCompliance_spec r).bind
        fun err l₁ ⟨hgrows, es₀, hrecords, hes₀, _, hne⟩ => ?_
      have hnot : r.takesCustody = false := eq_false_iff.mpr hr
      cases err with
      | some err =>
        refine ⟨es₀, ⟨hgrows, hrecords, fun e he => ?_⟩, by simp⟩
        exact ⟨r, mem_cons_self, hnot, hes₀ e he⟩
      | none =>
        refine ih.mono fun out l' ⟨es, happlied, hall⟩ => ?_
        refine ⟨es₀ ++ es, happlied.cons hgrows hrecords fun e he => ⟨hnot, hes₀ e he⟩,
          fun msg' hout => ⟨(hall msg' hout).1, (hall msg' hout).2.cons (fun h => ?_)
            fun h => absurd h hbcc⟩⟩
        obtain ⟨e, he⟩ := exists_mem_of_ne_nil _ (hne rfl)
        exact ⟨e, he, (hes₀ e he).rule, (hes₀ e he).mode.trans (by rw [h]; rfl)⟩

/-- Records under the combined rule, and then under other rules. -/
theorem kept_of_captured (hrecords : l.records = es₀ ++ es)
    (hes₀ : ∀ e ∈ es₀, Captured qm msg c l.clocks e) (hone : es₀.length ≤ 1)
    (hes : ∀ e ∈ es, ∃ r ∈ matching qm msg, r.takesCustody = false ∧ Captured qm msg r l.clocks e)
    (hc : Represents (custodyRules qm msg) c)
    (hnonneg : ∀ r ∈ custodyRules qm msg, 0 ≤ r.retention) :
    l.records.filter isCustody = es₀ ∧ Kept qm msg l := by
  have hfilter : l.records.filter isCustody = es₀ := by
    rw [hrecords, filter_append, filter_eq_self.mpr, filter_eq_nil_iff.mpr,
      append_nil]
    · intro e he
      obtain ⟨r, _, hr, hcaptured⟩ := hes e he
      rw [hcaptured.isCustody_eq, hr]
      exact false_ne_true
    · intro e he
      rw [(hes₀ e he).isCustody_eq, hc.custody]
  refine ⟨hfilter, hfilter ▸ hone, fun e he => ?_, fun e he => ?_⟩
  · exact (hes₀ e (hfilter ▸ he)).strictest hc hnonneg
  · rcases mem_append.mp (hrecords ▸ he) with he | he
    · exact (hes₀ e he).evidence
    · obtain ⟨r, _, _, hcaptured⟩ := hes e he
      exact hcaptured.evidence

/-- What `applyCompliance` leaves of a message that a custody rule matches. -/
theorem applyCompliance_spec (hrules : validateRules [] qm.rules = none)
    (hbypass : msg.complianceBypass = false)
    (hcustody : ∃ r ∈ matching qm msg, r.takesCustody = true) (hl : l.records = []) :
    Spec (ledger m) (qm.applyCompliance msg) l fun out l' => Kept qm msg l' ∧
      l'.closed = l.closed ∧ ∀ b, out = .ok b → b = (true, msg) ∧ Preserved qm msg l' := by
  have hheld : (evaluate qm.tables qm.rules msg.fromAddr msg.toAddrs).any (·.takesCustody) = true :=
    any_eq_true.mpr hcustody
  obtain ⟨c, hc⟩ : ∃ c, combineRules qm.tables
      (evaluate qm.tables qm.rules msg.fromAddr msg.toAddrs) = some c :=
    combineRules_isSome hcustody
  have hrep : Represents (custodyRules qm msg) c := combineRules_represents hc
  have hnonneg : ∀ r ∈ custodyRules qm msg, 0 ≤ r.retention := fun r hr =>
    retention_nonneg hrules r (mem_filter.mp (mem_filter.mp hr).1).1
  unfold QueueManager.applyCompliance
  rw [if_neg (by simp [hbypass])]
  dsimp only
  rw [hc, hheld]
  refine (captureCompliance_spec c).bind fun err l₁ ⟨hgrows, es₀, hrecords, hes₀, hone, hne⟩ => ?_
  rw [hl, nil_append] at hrecords
  cases err with
  | some err =>
    have hkept := kept_of_captured (hrecords.trans (append_nil _).symm) hes₀ hone
      (fun e he => absurd he not_mem_nil) hrep hnonneg
    exact ⟨hkept.2, hgrows.closed, by simp⟩
  | none =>
    refine (applyRules_spec (matching qm msg)).bind fun out l₂ ⟨es, happlied, hall⟩ => ?_
    have hkept := kept_of_captured (hrecords ▸ happlied.records)
      (fun e he => (hes₀ e he).mono happlied.grows.clocks) hone happlied.captured hrep hnonneg
    have hclosed := happlied.grows.closed.trans hgrows.closed
    cases out with
    | error err => exact ⟨hkept.2, hclosed, by simp⟩
    | ok msg' =>
      obtain ⟨rfl, hall⟩ := hall msg' rfl
      refine ⟨hkept.2, hclosed, fun b hb => ⟨(Except.ok.inj hb).symm, ?_, ?_, hall.monitors⟩⟩
      · obtain ⟨e, rfl⟩ := length_eq_one_iff.mp
          (le_antisymm hone (length_pos_iff.mpr (hne rfl)))
        exact ⟨e, hkept.1⟩
      · intro r hr hmode
        obtain ⟨e, he, heq⟩ := hall.copies r hr hmode
        exact ⟨e, happlied.records ▸ mem_append_right _ he, heq⟩

/-- The ledger of a message stays what it is when only times are read. -/
theorem Kept.mono (h : Kept qm msg l) (hrecords : l'.records = l.records)
    (hclocks : l.clocks ⊆ l'.clocks) : Kept qm msg l' where
  atMostOne := hrecords ▸ h.atMostOne
  custody e he := by
    have hstrict := h.custody e (hrecords ▸ he)
    refine { hstrict with longest := fun hne => ?_ }
    obtain ⟨r, hr, hmax, t, ht, heq⟩ := hstrict.longest hne
    exact ⟨r, hr, hmax, t, hclocks ht, heq⟩
  evidence := hrecords ▸ h.evidence

theorem Preserved.mono (h : Preserved qm msg l) (hrecords : l'.records = l.records)
    (haudits : l'.audits = l.audits) : Preserved qm msg l' :=
  ⟨hrecords ▸ h.custody, hrecords ▸ h.copies, haudits ▸ h.monitors⟩

/-- `finalizeReceipt` changes at most the text of the submission. -/
theorem finalizeReceipt_spec (receipt : JournalEntry) :
    Spec (ledger m) (qm.finalizeReceipt (some receipt)) l fun out l' =>
      (l'.records = l.records ∧ l'.audits = l.audits ∧ l.clocks ⊆ l'.clocks) ∧
        ∀ r, out = .ok (some r) →
          r.messageID = receipt.messageID ∧ r.tier = receipt.tier ∧ r.status = receipt.status := by
  unfold QueueManager.finalizeReceipt
  refine spec_ite (fun _ => ?_) fun _ => ?_
  · exact ⟨⟨rfl, rfl, fun _ h => h⟩, fun r h => by cases h; exact ⟨rfl, rfl, rfl⟩⟩
  · split
    · exact ⟨⟨rfl, rfl, fun _ h => h⟩, nofun⟩
    · refine spec_ask trivial fun (t : Time) _ => ?_
      have hclocks : l.clocks ⊆ l.clocks ++ [t] := subset_append_left _ _
      dsimp only
      split
      · exact ⟨⟨rfl, rfl, hclocks⟩, nofun⟩
      · exact ⟨⟨rfl, rfl, hclocks⟩, fun r h => by cases h; exact ⟨rfl, rfl, rfl⟩⟩

/-- The receipts of a message are stored with it, and are no records. -/
theorem persistSubmissionReceipt_spec (hreceipts : ∀ r ∈ receipts msg, r.tier ≠ "compliance")
    (hm : receipts m = receipts msg) :
    Spec (ledger m) (qm.persistSubmissionReceipt msg) l fun _ l' =>
      l'.records = l.records ∧ l'.audits = l.audits ∧ l.clocks ⊆ l'.clocks := by
  unfold QueueManager.persistSubmissionReceipt
  split
  · exact ⟨rfl, rfl, fun _ h => h⟩
  next receipt hreceipt =>
  rw [hreceipt]
  refine (finalizeReceipt_spec receipt).bind fun out l₁ ⟨⟨hrecords, haudits, hclocks⟩, hout⟩ => ?_
  rcases out with err | _ | receipt'
  · exact ⟨hrecords, haudits, hclocks⟩
  · exact ⟨hrecords, haudits, hclocks⟩
  have hout := hout receipt' rfl
  have hmem : receipt ∈ receipts msg := by simp [receipts, hreceipt]
  have hextra : (msg.extraReceipts.map some).reduceOption = msg.extraReceipts := by
    simp [reduceOption]
  refine spec_ask (fun e he => .inr ?_) fun (reply : Except String Answer) _ => ?_
  · rw [hm]
    rcases mem_cons.mp he with rfl | he
    · exact ⟨receipt, hmem, hout⟩
    · exact ⟨e, mem_append_right _ (hextra ▸ he), rfl, rfl, rfl⟩
  · cases reply with
    | error err => exact ⟨hrecords, haudits, hclocks⟩
    | ok answer =>
      refine ⟨(?_ : _ ++ _ = _), haudits, hclocks⟩
      rw [filter_eq_nil_iff.mpr, append_nil, hrecords]
      intro e he
      rw [decide_eq_true_eq]
      rcases mem_cons.mp he with rfl | he
      · exact hout.2.1 ▸ hreceipts receipt hmem
      · exact hreceipts e (mem_append_right _ (hextra ▸ he))

theorem enqueue_spec (hrules : validateRules [] qm.rules = none) (hmsg : Unreleased msg)
    (hcustody : ∃ r ∈ matching qm msg, r.takesCustody = true) :
    Spec (ledger msg) (qm.enqueue msg) {} fun err l =>
      Kept qm msg l ∧ (err = none → Preserved qm msg l) := by
  have hempty : Kept qm msg {} := ⟨by simp, by simp, by simp⟩
  unfold QueueManager.enqueue
  refine .bind (Q := fun _ l => l = {}) ?_ fun id l hl => ?_
  · exact spec_ite (fun _ => spec_ask trivial fun _ _ => rfl) fun _ => rfl
  subst hl
  refine spec_ite (fun _ => ⟨hempty, by simp⟩) fun _ => ?_
  -- the new ID is no part of what is evaluated and kept
  have hbypass : ({ msg with id := id } : Message).complianceBypass = false := hmsg.bypass
  refine (applyCompliance_spec (l := {}) hrules hbypass hcustody rfl).bind
    fun out l ⟨hkept, _, hleft⟩ => ?_
  have hkept : Kept qm msg l := ⟨hkept.atMostOne, hkept.custody, hkept.evidence⟩
  cases out with
  | error err => exact ⟨hkept, by simp⟩
  | ok b =>
    obtain ⟨rfl, hpreserved⟩ := hleft b rfl
    have hpreserved : Preserved qm msg l :=
      ⟨hpreserved.custody, hpreserved.copies, hpreserved.monitors⟩
    refine (persistSubmissionReceipt_spec hmsg.receipts rfl).mono
      fun err l' ⟨hrecords, haudits, hclocks⟩ => ?_
    exact ⟨hkept.mono hrecords hclocks, fun _ => hpreserved.mono hrecords haudits⟩

theorem processMessage_spec (hrules : validateRules [] qm.rules = none) (hmsg : Unreleased msg)
    (hcustody : ∃ r ∈ matching qm msg, r.takesCustody = true) :
    Spec (ledger msg) (qm.processMessage msg) {} fun _ l =>
      Kept qm msg l ∧ (l.closed = true → Preserved qm msg l) := by
  have hempty : Kept qm msg {} := ⟨by simp, by simp, by simp⟩
  have hin : qm.inCustody msg = true :=
    and_eq_true_iff.mpr ⟨decide_eq_true hmsg.release, any_eq_true.mpr hcustody⟩
  unfold QueueManager.processMessage
  rw [if_pos hin]
  refine (spec_tryTransition ⟨rfl, rfl, rfl⟩ fun _ _ => rfl :
    Spec (ledger msg) _ {} fun _ l => l = {}).bind fun granted l hl => ?_
  subst hl
  refine spec_ite (fun _ => ?_) fun _ => ⟨hempty, by simp⟩
  refine (applyCompliance_spec hrules hmsg.bypass hcustody rfl).bind
    fun out l ⟨hkept, hclosed, hpreserved⟩ => ?_
  cases out with
  | error err =>
    refine spec_ask ⟨rfl, .inr rfl⟩ fun _ _ => ⟨hkept.mono rfl fun _ h => h, fun h => ?_⟩
    have hopen : (l.closed || decide ("pending" = "delivered")) = false := by simp [hclosed]
    exact absurd (hopen.symm.trans h) false_ne_true
  | ok b =>
    refine spec_ask ⟨rfl, .inl rfl⟩ fun _ _ => ⟨hkept.mono rfl fun _ h => h, fun _ => ?_⟩
    exact (hpreserved b rfl).2.mono rfl rfl

end Capture

/-- **Custody.**  A message that a hold or reroute rule matches is preserved under the strictest
rule, by `Enqueue` as by `processMessage`, and goes nowhere; the terms do not depend on the order
of the rules. -/
theorem strictest_rule (qm : QueueManager) (hrules : validateRules [] qm.rules = none)
    (msg : Message) (hmsg : Unreleased msg)
    (hcustody : ∃ r ∈ matching qm msg, r.takesCustody = true) :
    Spec (ledger msg) (qm.enqueue msg) {} (fun err l =>
      Kept qm msg l ∧ (err = none → Preserved qm msg l)) ∧
    Spec (ledger msg) (qm.processMessage msg) {} (fun _ l =>
      Kept qm msg l ∧ (l.closed = true → Preserved qm msg l)) ∧
    ∀ rules : List Rule, rules.Perm qm.rules →
      terms { qm with rules := rules } msg = terms qm msg :=
  ⟨enqueue_spec hrules hmsg hcustody, processMessage_spec hrules hmsg hcustody,
    fun _ h => terms_perm h⟩

/-- A manager with three rules for one domain. -/
def strictManager : QueueManager :=
  { bareManager with
    rules :=
      [{ name := "month", domain := "y", scope := .either, mode := .hold, retention := 30 },
       { name := "monitor", domain := "y", scope := .either, mode := .bcc, bcc := "m@z" },
       { name := "court", domain := "y", scope := .recipient, mode := .reroute, retention := 90
         legalHold := true }] }

theorem strictest_rule_court :
    terms strictManager { id := "m1", fromAddr := "a@x", toAddrs := ["b@y"] } = some (true, 90) ∧
    ((strictManager.enqueue { id := "m1", fromAddr := "a@x", toAddrs := ["b@y"] }).play
      (fun _ q => noDomains q) []).2 = none ∧
    Spec (ledger { id := "m1", fromAddr := "a@x", toAddrs := ["b@y"] })
      (strictManager.enqueue { id := "m1", fromAddr := "a@x", toAddrs := ["b@y"] }) {} (fun err l =>
        Kept strictManager { id := "m1", fromAddr := "a@x", toAddrs := ["b@y"] } l ∧
        (err = none →
          Preserved strictManager { id := "m1", fromAddr := "a@x", toAddrs := ["b@y"] } l)) :=
  ⟨by decide +kernel, by decide +kernel,
    (strictest_rule strictManager (by decide +kernel) _ ⟨rfl, rfl, by decide⟩
      (by decide +kernel)).1⟩

end EmailService.Custody
