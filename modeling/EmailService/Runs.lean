/-
EmailService/Runs.lean

Whole runs of the message store: recovery against the live index.

A run starts from an empty store and makes calls that succeed.  If every call
is admissible, the files on disk rebuild the live index at every point of the
run (`recovery_refines_index`).  Without that condition they need not: a store
of an entry whose status is already terminal, as a replicated entry may be,
puts into the index what recovery takes for a tombstone
(`stored_delivered_not_recovered`).
-/
import EmailService.CompactSpec

namespace EmailService

open KeyedLog Framing

variable {α : Type}

/-! ### Runs -/

/-- A call on the store. -/
inductive Action
  | call (env : Env) (op : Op)
  | compact (cio : CompactIO) (retention : Duration)

/-- Carry out a call. -/
def Action.run (F : JournalFormat α) (X : Externals) (s : MessageStore α) :
    Action → Except String Answer × MessageStore α
  | .call env op => s.call F X env op
  | .compact cio retention =>
    match EmailService.compact F cio retention s with
    | (_, .ok (), s') => (.ok .done, s')
    | (_, .error err, s') => (.error err, s')

/-- What the language and the clock guarantee: a loop over a map visits every
key once, and a new journal file is named after the active one. -/
def Action.Legal (s : MessageStore α) : Action → Prop
  | .call env _ => Traverses env.order s.index
  | .compact cio _ => Traverses cio.expireOrder s.index ∧
      Traverses cio.snapshotOrder s.index ∧ s.journal.file.name < cio.name

/-- The condition on a call under which disk and index stay in step. -/
def Action.Admissible (X : Externals) (s : MessageStore α) : Action → Prop
  | .call env op => op.Admissible X env s
  | .compact _ _ => True

/-- The store `NewMessageStore` opens on an empty directory. -/
def MessageStore.init (name : String) (limits : Limits) : MessageStore α where
  index := fun _ => none
  dlq := fun _ => none
  journal :=
    { failed := none
      encoderErr := none
      older := []
      file := ⟨name, CrashFile.empty, true, false⟩
      newer := []
      checkpoint := ⟨[], []⟩ }
  limits := limits
  closed := false
  closeErr := none

/-- `SuccessfulRun F X Allowed s₀ s`: calls that all succeed, each of them
allowed where it is made, lead from `s₀` to `s`. -/
inductive SuccessfulRun (F : JournalFormat α) (X : Externals)
    (Allowed : MessageStore α → Action → Prop) (s₀ : MessageStore α) : MessageStore α → Prop
  | start : SuccessfulRun F X Allowed s₀ s₀
  | step {s s' a r} : SuccessfulRun F X Allowed s₀ s → a.Legal s → Allowed s a →
      a.run F X s = (.ok r, s') → SuccessfulRun F X Allowed s₀ s'

/-! ### Recovery refines the index -/

variable {F : JournalFormat α} {X : Externals} {s s' : MessageStore α}

theorem init_mirrors (name : String) (limits : Limits) :
    Mirrors F [] (MessageStore.init name limits : MessageStore α) := by
  refine ⟨⟨⟨rfl, rfl, CrashFile.clean_empty⟩, rfl, rfl, rfl, ?_, ?_, [], [], .nil, rfl, ?_⟩, ?_⟩
  · intro f hf
    cases hf
  · intro c hc n hn
    rcases Checkpoint.mem_shown.mp hc with rfl | rfl <;> cases hn
  · intro c _ ds hds
    cases hds
    exact ⟨[], rfl, rfl⟩
  · intro id e he
    cases he

variable {a : Action} {r : Answer} {index : String → Option JournalEntry}

/-- One successful admissible call. -/
theorem Action.run_mirrors (h : Mirrors F [] s) (hlegal : a.Legal s) (hadm : a.Admissible X s)
    (hrun : a.run F X s = (.ok r, s')) : Mirrors F [] s' := by
  cases a with
  | call env op =>
    obtain ⟨gone, hsub, -, hm⟩ := exec_mirrors h (Op.plan_faithful h.live hadm) hrun
    rwa [List.subset_nil.mp hsub] at hm
  | compact cio retention =>
    obtain ⟨-, hsnapshot, hyounger⟩ := hlegal
    have hstart : Compacting F cio [] s :=
      ⟨h, hyounger, fun id hid => (hsnapshot.2 id).mpr hid⟩
    have hspec := (compact_spec retention hstart s rfl).2
    simp only [Action.run] at hrun
    rcases hc : EmailService.compact F cio retention s with ⟨l, err | u, s₁⟩
    · rw [hc] at hrun; cases hrun
    · rw [hc] at hrun hspec
      cases hrun
      exact hspec.mirrors

theorem SuccessfulRun.mirrors {name : String} {limits : Limits}
    (h : SuccessfulRun F X (fun s a => a.Admissible X s) (MessageStore.init name limits) s) :
    Mirrors F [] s := by
  induction h with
  | start => exact init_mirrors name limits
  | step _ hlegal hadm hrun ih => exact Action.run_mirrors ih hlegal hadm hrun

/-- **Recovery refines the live index**: after every run of successful
admissible calls, the journal files recover exactly the index, with claimed
entries back to pending. -/
theorem recovery_refines_index {name : String} {limits : Limits}
    (h : SuccessfulRun F X (fun s a => a.Admissible X s) (MessageStore.init name limits) s) :
    ∃ t, recover F s.journal.directory = .ok t ∧ t.index = requeued s.index :=
  h.mirrors.rebuilds.recover_crash s.journal.crash_directory

/-! ### Two runs -/

/-- Surroundings in which every system call succeeds. -/
def calmEnv (order : List String) : Env where
  now := 1
  later := 2
  messageUUID := "fresh"
  messageUUID_ne := by decide
  recordUUID := "record"
  statfs := .ok (1048576, 4096)
  audit := none
  io := {}
  fileClose := none
  order := order

/-- A compaction in which every system call succeeds. -/
def calmCompact (order : List String) (name : String) : CompactIO where
  clock := fun _ => 3
  tombstone := fun _ => ({}, "record")
  expireOrder := order
  snapshotOrder := order
  name := name

/-- Library functions of a store without submissions and evidence. -/
def bareExternals : Externals where
  evidenceHash := fun _ _ _ => ""
  unmarshalSubmission := fun _ => .error "unexpected end of JSON input"
  marshalSubmission := fun _ => .ok "\x7b\x7d"
  parseRFC3339 := fun _ => .error "cannot parse"
  parseRFC3339Nano := fun _ => .error "cannot parse"
  formatRFC3339 := fun _ => ""
  formatRFC3339Nano := fun _ => ""

def noLimits : Limits := ⟨0, 0, 0⟩

def firstMessage : JournalEntry := { messageID := "m1", fromAddr := "a@x", toAddrs := ["b@y"] }

/-- A replicated entry of a message already delivered elsewhere. -/
def deliveredMessage : JournalEntry := { firstMessage with status := "delivered" }

theorem traverses_nil (h : ∀ id, index id = none) : Traverses [] index :=
  ⟨List.nodup_nil, fun id => by simp [h id]⟩

theorem traverses_update_none {id : String} {e : JournalEntry}
    (h : index = Function.update (fun _ => none) id (some e)) : Traverses [id] index := by
  refine ⟨List.nodup_singleton id, fun id' => ?_⟩
  rw [List.mem_singleton, h]
  by_cases hid : id' = id <;> simp [hid]

/-- A run one call longer. -/
theorem SuccessfulRun.next {Allowed : MessageStore α → Action → Prop} {s₀ : MessageStore α}
    (h : SuccessfulRun F X Allowed s₀ s) (hlegal : a.Legal s) (hallowed : Allowed s a)
    (hok : (a.run F X s).1 = .ok r) : SuccessfulRun F X Allowed s₀ (a.run F X s).2 :=
  h.step hlegal hallowed (Prod.ext hok rfl)

/-- The store after accepting a message. -/
def acceptedStore : MessageStore JournalEntry :=
  (Action.run recordFormat bareExternals (MessageStore.init "journal-1.log" noLimits)
    (.call (calmEnv []) (.storeWithReceipt firstMessage [none]))).2

/-- The store after queueing it. -/
def queuedStore : MessageStore JournalEntry :=
  (Action.run recordFormat bareExternals acceptedStore
    (.call (calmEnv ["m1"]) (.transition "m1" "pending" "queued"))).2

theorem queuedStore_run : SuccessfulRun recordFormat bareExternals
    (fun s a => a.Admissible bareExternals s) (MessageStore.init "journal-1.log" noLimits)
    queuedStore := by
  have haccepted : SuccessfulRun recordFormat bareExternals
      (fun s a => a.Admissible bareExternals s) (.init "journal-1.log" noLimits)
      acceptedStore :=
    SuccessfulRun.start.next (r := .stored "m1") (traverses_nil fun _ => rfl)
      ⟨⟨by decide, by decide⟩, fun _ h => by simp at h⟩ rfl
  exact haccepted.next (a := .call (calmEnv ["m1"]) (.transition "m1" "pending" "queued"))
    (r := .flag true) (traverses_update_none rfl) ⟨by decide, by decide⟩ rfl

/-- The store after compacting the journal. -/
def compactedStore : MessageStore JournalEntry :=
  (Action.run recordFormat bareExternals queuedStore
    (.compact (calmCompact ["m1"] "journal-2.log") 0)).2

/-- Accepting a message, queueing it and compacting: the message comes back
pending. -/
theorem recovery_refines_index_compacted :
    (compactedStore.index "m1").map JournalEntry.status = some "queued" ∧
      ∃ t, recover recordFormat compactedStore.journal.directory = .ok t ∧
        t.index = requeued compactedStore.index := by
  -- queueing has put the message under its key a second time
  have horder : Traverses ["m1"] queuedStore.index :=
    traverses_update_none (Function.update_idem ..)
  have hcompacted := queuedStore_run.next (a := .compact (calmCompact ["m1"] "journal-2.log") 0)
    (r := .done) ⟨horder, horder, by decide⟩ trivial rfl
  exact ⟨rfl, recovery_refines_index hcompacted⟩

/-- **A stored entry that recovery drops**: the call succeeds and the entry is
in the index, but its record reads as a tombstone. -/
theorem stored_delivered_not_recovered :
    ∃ s, SuccessfulRun recordFormat bareExternals (fun _ _ => True)
        (MessageStore.init "journal-1.log" noLimits) s ∧
      (s.index "m1").map JournalEntry.status = some "delivered" ∧
      ∃ t, recover recordFormat s.journal.directory = .ok t ∧ t.index "m1" = none :=
  ⟨_, .step (a := .call (calmEnv []) (.storeWithReceipt deliveredMessage [none])) .start
    (traverses_nil fun _ => rfl) trivial rfl, rfl, _, rfl, rfl⟩

end EmailService
