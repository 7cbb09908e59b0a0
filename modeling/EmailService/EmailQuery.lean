/-
EmailService/EmailQuery.lean

Email/query and Email/queryChanges (internal/jmap/read.go, query_page.go and
query_sync.go).

A query sorts the messages that match by their date and ID, remembers the IDs under
a token, and returns a page of them.  Later `queryChanges` compares what is
remembered under a token with a new query.  `queryChanges_splices` says that its
answer is an edit script from the one list to the other, whatever happened to the
mail in between: no statement of the mailbox store changes the date of a message, so
messages that are in both lists stand in the same order.
-/
import EmailService.Snapshots
import EmailService.Delta

namespace EmailService.Jmap

open Json Utf8 List

/-! ### Mail -/

/-- A message as Email/query reads it: `messageMailboxID`, `keywords` and `ThreadID`, and the
date, which is in seconds. -/
structure Message where
  id : Text
  mailboxID : Text
  keywords : List Text
  threadID : Text
  date : ℤ

/-- A row of `message_flags`. -/
structure Row where
  user : Text
  message : Message
  expunged : Bool := false

/-- `EmailSnapshot`: the messages of a user. -/
def emailSnapshot (user : Text) (mail : List Row) : List Message :=
  (mail.filter fun r => r.user = user && !r.expunged).map Row.message

/-- What the mailbox store does to the rows.  It inserts messages with new IDs (a UUID, or the
digest of a delivery that has no row yet); its updates set the mailbox, the UID, the flags and
the two marks, and no row is ever deleted. -/
inductive MailStep : List Row → List Row → Prop
  | insert (mail : List Row) (row : Row) (hnew : ∀ r ∈ mail, r.message.id ≠ row.message.id)
      (hvalid : Valid row.message.id) : MailStep mail (mail ++ [row])
  | update (mail : List Row) (f : Row → Row)
      (hf : ∀ r, (f r).message.id = r.message.id ∧ (f r).message.date = r.message.date) :
      MailStep mail (mail.map f)

/-! ### Queries -/

/-- What the texts of the messages say. -/
structure Contents where
  /-- `FetchMessage` succeeds -/
  fetches : Text → Bool
  /-- `mailstate.ThreadID` -/
  threadID : Text → Text
  /-- the header field contains the text -/
  header : Text → String → Text → Bool
  /-- the message contains the text; nothing if there is no `emailObject` -/
  text : Text → Text → Option Bool

def filterKeys : List String :=
  ["inMailbox", "subject", "from", "to", "text", "hasKeyword", "notKeyword"]

/-- One member of the filter. -/
def filterMember (member : Text × Value) : Except String (String × Text) :=
  match filterKeys.find? fun key => bytes key = member.1, member.2 with
  | none, _ => .error "unsupportedFilter"
  | some key, .str want => .ok (key, want)
  | some _, _ => .error "invalidArguments"

variable (args : Args)

/-- The filter of a query. -/
def filterOf : Except String (List (String × Text)) :=
  match args.get "filter" with
  | .null => .ok []
  | .obj members => members.mapM filterMember
  | _ => .error "invalidArguments"

/-- The filters on metadata, which are applied first. -/
def metaMatches (filter : List (String × Text)) (m : Message) : Bool :=
  filter.all fun
    | ("inMailbox", want) => m.mailboxID = want
    | ("hasKeyword", want) => want ∈ m.keywords
    | ("notKeyword", want) => want ∉ m.keywords
    | _ => true

def needsBody (filter : List (String × Text)) : Bool :=
  filter.any fun member => ["subject", "from", "to", "text"].contains member.1

/-- The other filters; an error if there is no object to search. -/
def bodyMatches (C : Contents) (id : Text) : List (String × Text) → Except String Bool
  | [] => .ok true
  | ("text", want) :: filter =>
    match C.text id want with
    | none => .error "serverFail"
    | some b => (bodyMatches C id filter).map (b && ·)
  | (key, want) :: filter =>
    let matching := if key ∈ ["subject", "from", "to"] then C.header id key want else true
    (bodyMatches C id filter).map (matching && ·)

/-- The body of the loop over the messages: the message and its thread, if it matches. -/
def consider (C : Contents) (filter : List (String × Text)) (collapse : Bool) (m : Message) :
    Except String (Option (Message × Text)) :=
  if !metaMatches filter m then .ok none
  else
    let fetched := needsBody filter || (collapse && m.threadID = [])
    if fetched && !C.fetches m.id then .error "serverFail"
    else
      let thread := if fetched && m.threadID = [] then C.threadID m.id else m.threadID
      (bodyMatches C m.id filter).map fun b => if b then some (m, thread) else none

/-- The order of the results: later messages first, and then by ID. -/
def precedes (a b : Message) : Bool := b.date < a.date || (a.date = b.date && a.id ≤ b.id)

/-- Only the first message of a thread. -/
def firstOfThreads : List Text → List (Message × Text) → List (Message × Text)
  | _, [] => []
  | seen, e :: entries =>
    if e.2 ∈ seen then firstOfThreads seen entries
    else e :: firstOfThreads (e.2 :: seen) entries

/-- The order of the entries. -/
abbrev InOrder (e e' : Message × Text) : Prop := precedes e.1 e'.1 = true

/-- The entries that match, in order. -/
def results (collapse : Bool) (entries : List (Option (Message × Text))) : List (Message × Text) :=
  let entries := entries.reduceOption.insertionSort InOrder
  if collapse then firstOfThreads [] entries else entries

/-- The argument `collapseThreads`. -/
def collapseOf : Except String Bool :=
  match args.get "collapseThreads" with
  | .null => .ok false
  | .bool b => .ok b
  | _ => .error "invalidArguments"

/-- `emailQuery`, up to all IDs that match. -/
def queryIDs (C : Contents) (mail : List Row) (user : Text) (args : Args) :
    Except String (List Text) :=
  if !args.only ["accountId", "filter", "sort", "position", "anchor", "anchorOffset", "limit",
      "calculateTotal", "collapseThreads"] then .error "invalidArguments"
  else match collapseOf args, filterOf args with
  | .error err, _ => .error err
  | .ok _, .error err => .error err
  | .ok collapse, .ok filter =>
    match (emailSnapshot user mail).mapM (consider C filter collapse), args.get "sort" with
    | .error err, _ => .error err
    | .ok entries, .null => .ok ((results collapse entries).map fun e => e.1.id)
    | .ok _, _ => .error "unsupportedSort"

/-- `querySignature`. -/
def querySignature : Text :=
  let filter := match args.get "filter" with
    | .null => .obj []
    | v => v
  hexEncode (Sha256.sum256 (Value.obj [(bytes "collapseThreads", args.get "collapseThreads"),
    (bytes "filter", filter), (bytes "sort", args.get "sort")]).print)

/-- A query that was answered and remembered. -/
structure Query where
  user : Text
  signature : Text
  state : Text
  ids : List Text
  deriving DecidableEq

variable (q : Query)

/-- What the token of a query is the digest of. -/
def Query.text : Text :=
  (Value.arr [.str q.user, .str (bytes "Email"), .str q.signature, .str q.state,
    strings q.ids]).print

def Query.token : Text := fingerprint "q1:" q.text

/-- The mail, the snapshots, and the queries that were remembered. -/
structure Server where
  mail : List Row := []
  snapshots : Snapshots := []
  queries : List Query := []

/-- `rememberQuery`. -/
def rememberQuery (s : Server) : Text × Bool × Server :=
  match s.snapshots.save q.user "Email" q.signature q.token q.ids with
  | none => (q.state, false, s)
  | some snapshots => (q.token, true, { s with snapshots := snapshots, queries := q :: s.queries })

/-- The `integer` of `queryPage`. -/
def pageInteger (key : String) : Option ℤ :=
  match args.lookup key with
  | none => some 0
  | some (.num token) => (parseInt token).filter fun n => decide (n.natAbs ≤ 9007199254740991)
  | some _ => none

/-- `queryPage`: the position, and the IDs from there on. -/
def queryPage (ids : List Text) : Except String (ℤ × List Text) := do
  let position ← match args.get "anchor" with
    | .null =>
      match pageInteger args "position" with
      | none => throw "invalidArguments"
      | some n => pure (if n < 0 then n + ids.length else n)
    | .str (b :: anchor) =>
      match pageInteger args "anchorOffset" with
      | none => throw "invalidArguments"
      | some offset =>
        match ids.findIdx? (· = b :: anchor) with
        | none => throw "anchorNotFound"
        | some i => pure (i + offset)
    | _ => throw "invalidArguments"
  let position := max position 0
  match numericLimit args "limit" maxJMAPObjects with
  | none => throw "invalidArguments"
  | some limit => pure (position, (ids.drop position.toNat).take (min limit maxJMAPObjects))

section Windows

/-- Where RFC 8620 lets a window begin: at a position from the front, or from the end if it is
negative, or at an offset from the anchor. -/
inductive Begins (args : Args) (ids : List Text) : ℤ → Prop
  | front {n : ℤ} (hargs : args.get "anchor" = .null)
      (hn : pageInteger args "position" = some n) (hle : 0 ≤ n) : Begins args ids n
  | back {n : ℤ} (hargs : args.get "anchor" = .null)
      (hn : pageInteger args "position" = some n) (hlt : n < 0) : Begins args ids (n + ids.length)
  | anchor {b : UInt8} {anchor : Text} {before after : List Text} {n : ℤ}
      (hargs : args.get "anchor" = .str (b :: anchor))
      (hn : pageInteger args "anchorOffset" = some n)
      (hids : ids = before ++ (b :: anchor) :: after) (hfirst : b :: anchor ∉ before) :
      Begins args ids (before.length + n)

/-- The IDs that came with the first calls. -/
def received (calls : ℕ → Args) (ids : List Text) : ℕ → List Text
  | 0 => []
  | k + 1 => received calls ids k ++ ((queryPage (calls k) ids).toOption.elim [] Prod.snd)

/-- Every call asks for what follows the IDs that came before. -/
def Advancing (calls : ℕ → Args) (ids : List Text) : Prop :=
  ∀ k, (calls k).get "anchor" = .null ∧
    pageInteger (calls k) "position" = some ↑(received calls ids k).length ∧
    ∃ limit, numericLimit (calls k) "limit" maxJMAPObjects = some (limit + 1)

/-- The windows of a list. -/
structure Windowed (ids : List Text) : Prop where
  inside : ∀ args start limit, Begins args ids start →
    numericLimit args "limit" maxJMAPObjects = some limit →
    ∃ before page after, queryPage args ids = .ok (max start 0, page) ∧
      ids = before ++ (page ++ after) ∧
      (before.length = max start 0 ∨ ids.length ≤ max start 0 ∧ page = []) ∧
      page.length ≤ min limit maxJMAPObjects ∧
      (after = [] ∨ page.length = min limit maxJMAPObjects)
  missing : ∀ args, queryPage args ids = .error "anchorNotFound" ↔
    ∃ b anchor n, args.get "anchor" = .str (b :: anchor) ∧
      pageInteger args "anchorOffset" = some n ∧ b :: anchor ∉ ids
  tiles : ∀ calls, Advancing calls ids → received calls ids ids.length = ids

variable {args : Args} {ids : List Text} {start : ℤ} {limit : ℕ}

theorem Begins.queryPage_eq (h : Begins args ids start)
    (hlimit : numericLimit args "limit" maxJMAPObjects = some limit) :
    queryPage args ids = .ok (max start 0,
      (ids.drop (max start 0).toNat).take (min limit maxJMAPObjects)) := by
  unfold queryPage
  cases h with
  | front hargs hn hle => simp only [hargs, hn, if_neg hle.not_gt, hlimit, pure_bind]; rfl
  | back hargs hn hlt => simp only [hargs, hn, if_pos hlt, hlimit, pure_bind]; rfl
  | @anchor b anchor before after n hargs hn hids hfirst =>
    have hi : ids.findIdx? (· = b :: anchor) = some before.length := by
      rw [hids, findIdx?_append, findIdx?_eq_none_iff.mpr, findIdx?_cons]
      · simp
      · intro id hid
        exact decide_eq_false fun h => hfirst (h ▸ hid)
    simp only [hargs, hn, hi, hlimit, pure_bind]
    rfl

/-- A call brings at least one more ID, as long as there is one. -/
theorem Advancing.received_eq {calls : ℕ → Args} (h : Advancing calls ids) (k : ℕ) :
    ∃ n, received calls ids k = ids.take n ∧ n ≤ ids.length ∧ min k ids.length ≤ n := by
  induction k with
  | zero => exact ⟨0, rfl, Nat.zero_le _, Nat.min_le_left _ _⟩
  | succ k ih =>
    obtain ⟨n, hn, hle, hk⟩ := ih
    obtain ⟨hargs, hposition, limit, hlimit⟩ := h k
    rw [hn, length_take, min_eq_left hle] at hposition
    have hbegins : Begins (calls k) ids n := .front hargs hposition (Int.natCast_nonneg n)
    have hpage := hbegins.queryPage_eq hlimit
    rw [max_eq_left (Int.natCast_nonneg n), Int.toNat_natCast] at hpage
    -- the limit is at least one, so the page is empty at the end only
    refine ⟨min (n + min (limit + 1) maxJMAPObjects) ids.length, ?_, min_le_right _ _, ?_⟩
    · rw [received, hpage, hn, ← take_eq_take_min, take_add]
      rfl
    · rw [maxJMAPObjects]
      omega

theorem windowed (ids : List Text) : Windowed ids where
  inside args start limit h hlimit := by
    refine ⟨ids.take (max start 0).toNat, _,
      (ids.drop (max start 0).toNat).drop (min limit maxJMAPObjects),
      h.queryPage_eq hlimit, ?_, ?_, length_take_le _ _, ?_⟩
    · rw [take_append_drop, take_append_drop]
    · rcases le_total (max start 0).toNat ids.length with hle | hle
      · left
        rw [length_take, min_eq_left hle, Int.toNat_of_nonneg (le_max_right _ _)]
      · right
        refine ⟨by omega, ?_⟩
        rw [drop_eq_nil_of_le hle, take_nil]
    · rw [length_take, drop_eq_nil_iff]
      omega
  missing args := by
    have hne : "invalidArguments" ≠ "anchorNotFound" := by decide
    have hfind (anchor : Text) : ids.findIdx? (· = anchor) = none ↔ anchor ∉ ids := by
      simp only [findIdx?_eq_none_iff, decide_eq_false_iff_not]
      exact ⟨fun h hmem => h _ hmem rfl, fun h id hid heq => h (heq ▸ hid)⟩
    simp only [queryPage, bind, Except.bind, pure, Except.pure, throw, throwThe,
      MonadExceptOf.throw]
    grind
  tiles calls h := by
    obtain ⟨n, hn, -, hle⟩ := h.received_eq ids.length
    rw [hn, take_of_length_le (by simpa using hle)]

end Windows

structure QueryAnswer where
  queryState : Text
  canCalculateChanges : Bool
  position : ℤ
  ids : List Text
  total : ℕ

variable (C : Contents) (state user : Text) (args : Args)

/-- `emailQuery`; `state` is the state of the mail. -/
def emailQuery (s : Server) : Except String QueryAnswer × Server :=
  match queryIDs C s.mail user args with
  | .error err => (.error err, s)
  | .ok ids =>
    let (state, can, s) := rememberQuery ⟨user, querySignature args, state, ids⟩ s
    match queryPage args ids with
    | .error err => (.error err, s)
    | .ok (position, page) => (.ok ⟨state, can, position, page, ids.length⟩, s)

structure QueryChanges where
  oldQueryState : Text
  newQueryState : Text
  removed : List Text
  added : List (ℕ × Text)
  total : Option ℕ
  deriving DecidableEq

/-- The comparison at the end of `queryChanges`. -/
def compareQueries (since state : Text) (limit : ℕ) (calculateTotal : Bool)
    (old current : List Text) : Except String QueryChanges :=
  let removed := Delta.removed old current
  let added := Delta.added old 0 current
  if limit < removed.length + added.length then .error "tooManyChanges"
  else .ok ⟨since, state, removed, added, if calculateTotal then some current.length else none⟩

/-- The arguments of the new query. -/
def queryArgs (args : Args) : Args :=
  [("filter", args.get "filter"), ("sort", args.get "sort"), ("limit", .num (bytes "0")),
    ("collapseThreads", args.get "collapseThreads")]

/-- `queryChanges` for Email, after its arguments are checked. -/
def changesSince (since : Text) (limit : ℕ) (calculateTotal : Bool) (s : Server) :
    Except String QueryChanges × Server :=
  match s.snapshots.load user "Email" (querySignature args) since with
  | none => (.error "cannotCalculateChanges", s)
  | some old =>
    match emailQuery C state user (queryArgs args) s with
    | (.error err, s) => (.error err, s)
    | (.ok answer, s) =>
      if !answer.canCalculateChanges then (.error "cannotCalculateChanges", s)
      else match s.snapshots.load user "Email" (querySignature args) answer.queryState with
      | none => (.error "serverFail", s)
      | some current =>
        (compareQueries since answer.queryState limit calculateTotal old current, s)

/-- `queryChanges` for Email. -/
def queryChanges (s : Server) : Except String QueryChanges × Server :=
  if !args.only ["accountId", "filter", "sort", "sinceQueryState", "maxChanges", "calculateTotal",
      "collapseThreads"] then (.error "invalidArguments", s)
  else
    match args.get "sinceQueryState", numericLimit args "maxChanges" maxJMAPObjects,
        args.get "calculateTotal" with
    | .str since, some (limit + 1), .null =>
      changesSince C state user args since (min (limit + 1) maxJMAPObjects) false s
    | .str since, some (limit + 1), .bool b =>
      changesSince C state user args since (min (limit + 1) maxJMAPObjects) b s
    | _, _, _ => (.error "invalidArguments", s)

/-! ### Runs -/

/-- A step of the server.  The snapshots of other kinds are saved by other methods. -/
inductive Step : Server → Server → Prop
  | mail (s : Server) {mail : List Row} (h : MailStep s.mail mail) : Step s { s with mail := mail }
  | query (C : Contents) (state user : Text) (args : Args) (s : Server) :
      Step s (emailQuery C state user args s).2
  | changes (C : Contents) (state user : Text) (args : Args) (s : Server) :
      Step s (queryChanges C state user args s).2
  | other (s : Server) (user : Text) {kind : String} (signature token : Text) (ids : List Text)
      (hkind : kind ≠ "Email") {snapshots : Snapshots}
      (h : s.snapshots.save user kind signature token ids = some snapshots) :
      Step s { s with snapshots := snapshots }

/-- The states of a server that starts without mail. -/
def Reachable : Server → Prop := Relation.ReflTransGen Step {}

/-! ### What every step keeps -/

/-- The order of two IDs, by the dates of the table. -/
def Before (mail : List Row) (a b : Text) : Prop :=
  ∃ r ∈ mail, ∃ r' ∈ mail, r.message.id = a ∧ r'.message.id = b ∧
    (r'.message.date < r.message.date ∨ r.message.date = r'.message.date ∧ a < b)

/-- The row a query is stored in. -/
def Query.row : Snapshot :=
  ⟨q.user, "Email", q.signature, q.token, (strings q.ids).print⟩

/-- The IDs of messages are unique, the remembered queries are in order, and the snapshots are
remembered queries. -/
structure Sound (s : Server) : Prop where
  unique : s.mail.Pairwise fun r r' => r.message.id ≠ r'.message.id
  valid : ∀ r ∈ s.mail, Valid r.message.id
  ordered : ∀ q ∈ s.queries, q.ids.Pairwise (Before s.mail)
  validIDs : ∀ q ∈ s.queries, ∀ id ∈ q.ids, Valid id
  remembered : ∀ row ∈ s.snapshots, row.kind = "Email" → ∃ q ∈ s.queries, row = q.row

theorem sound_empty : Sound {} := by
  constructor <;> simp

/-- Rows keep their IDs and dates. -/
theorem MailStep.keeps {mail mail' : List Row} (h : MailStep mail mail') {r : Row} (hr : r ∈ mail) :
    ∃ r' ∈ mail', r'.message.id = r.message.id ∧ r'.message.date = r.message.date := by
  cases h with
  | insert row => exact ⟨r, mem_append_left _ hr, rfl, rfl⟩
  | update f hf => exact ⟨f r, mem_map_of_mem hr, hf r⟩

theorem Before.step {mail mail' : List Row} (h : MailStep mail mail') {a b : Text}
    (hab : Before mail a b) : Before mail' a b := by
  obtain ⟨r, hr, r', hr', rfl, rfl, hlt⟩ := hab
  obtain ⟨t, ht, hid, hdate⟩ := h.keeps hr
  obtain ⟨t', ht', hid', hdate'⟩ := h.keeps hr'
  exact ⟨t, ht, t', ht', hid, hid', by rwa [hdate, hdate']⟩

variable {s s' : Server} {C : Contents} {filter : List (String × Text)} {collapse : Bool}
  {messages : List Message} {entries : List (Option (Message × Text))} {user state : Text}
  {args : Args} {ids : List Text} {q : Query} {changes : QueryChanges}

theorem Sound.mail (h : Sound s) {mail : List Row} (hstep : MailStep s.mail mail) :
    Sound { s with mail := mail } := by
  refine ⟨?_, ?_, fun q hq => (h.ordered q hq).imp fun hab => hab.step hstep, h.validIDs,
    h.remembered⟩
  · cases hstep with
    | insert row hnew hvalid =>
      refine pairwise_append.mpr
        ⟨h.unique, pairwise_singleton _ _, fun r hr r' hr' => ?_⟩
      exact mem_singleton.mp hr' ▸ hnew r hr
    | update f hf =>
      refine pairwise_map.mpr (h.unique.imp fun {r r'} hne => ?_)
      rw [(hf r).1, (hf r').1]
      exact hne
  · cases hstep with
    | insert row hnew hvalid =>
      intro r hr
      rcases mem_append.mp hr with hr | hr
      · exact h.valid r hr
      · exact mem_singleton.mp hr ▸ hvalid
    | update f hf =>
      intro r hr
      obtain ⟨r₀, hr₀, rfl⟩ := mem_map.mp hr
      exact (hf r₀).1 ▸ h.valid r₀ hr₀

/-! ### The order of the results -/

theorem precedes_iff {a b : Message} :
    precedes a b = true ↔ b.date < a.date ∨ a.date = b.date ∧ a.id ≤ b.id := by
  simp [precedes]

theorem precedes_trans (a b c : Message) (hab : precedes a b = true) (hbc : precedes b c = true) :
    precedes a c = true := by
  rw [precedes_iff] at *
  rcases hab with hab | ⟨hab, hid⟩ <;> rcases hbc with hbc | ⟨hbc, hid'⟩
  · exact .inl (hbc.trans hab)
  · exact .inl (hbc ▸ hab)
  · exact .inl (hab ▸ hbc)
  · exact .inr ⟨hab.trans hbc, List.le_trans hid hid'⟩

theorem precedes_total (a b : Message) : (precedes a b || precedes b a) = true := by
  rw [Bool.or_eq_true, precedes_iff, precedes_iff]
  rcases lt_trichotomy a.date b.date with h | h | h
  · exact .inr (.inl h)
  · exact (List.le_total a.id b.id).imp (fun hid => .inr ⟨h, hid⟩) fun hid => .inr ⟨h.symm, hid⟩
  · exact .inl (.inl h)

instance : IsTrans (Message × Text) InOrder := ⟨fun a b c => precedes_trans a.1 b.1 c.1⟩

instance : Std.Total InOrder :=
  ⟨fun a b => Bool.or_eq_true_iff.mp (precedes_total a.1 b.1)⟩

theorem firstOfThreads_sublist (seen : List Text) (entries : List (Message × Text)) :
    (firstOfThreads seen entries).Sublist entries := by
  induction entries generalizing seen with
  | nil => exact .slnil
  | cons e entries ih =>
    rw [firstOfThreads]
    split
    · exact (ih _).cons e
    · exact (ih _).cons_cons e

theorem consider_some {m : Message} {e : Message × Text}
    (h : consider C filter collapse m = .ok (some e)) : e.1 = m := by
  rw [consider] at h
  split at h
  · cases h
  · dsimp only at h
    split at h
    · cases h
    · generalize bodyMatches C m.id filter = b at h
      rcases b with _ | _ | _ <;> cases h
      rfl

/-- What the loop keeps are messages of the account, in its order. -/
theorem mapM_consider_sublist (h : messages.mapM (consider C filter collapse) = .ok entries) :
    (entries.reduceOption.map Prod.fst).Sublist messages := by
  induction messages generalizing entries with
  | nil =>
    cases h
    exact .slnil
  | cons m messages ih =>
    rw [mapM_cons] at h
    cases he : consider C filter collapse m with
    | error err =>
      rw [he] at h
      cases h
    | ok e =>
      cases hrest : messages.mapM (consider C filter collapse) with
      | error err =>
        rw [he, hrest] at h
        cases h
      | ok rest =>
        rw [he, hrest] at h
        cases h
        cases e with
        | none => exact (ih hrest).cons m
        | some e => exact consider_some he ▸ (ih hrest).cons_cons e.1

theorem queryIDs_ok {mail : List Row} (h : queryIDs C mail user args = .ok ids) :
    ∃ filter collapse entries, (emailSnapshot user mail).mapM (consider C filter collapse) =
      .ok entries ∧ ids = (results collapse entries).map fun e => e.1.id := by
  unfold queryIDs at h
  split at h
  · cases h
  split at h
  · cases h
  · cases h
  next collapse filter _ _ =>
  split at h
  · cases h
  · next entries hentries _ =>
    exact ⟨filter, collapse, entries, hentries, (Except.ok.inj h).symm⟩
  · cases h

/-- The messages of a query, in order. -/
theorem results_pairwise (hunique : messages.Pairwise fun m m' => m.id ≠ m'.id)
    (hsub : (entries.reduceOption.map Prod.fst).Sublist messages) :
    (results collapse entries).Pairwise (fun e e' => precedes e.1 e'.1 = true ∧ e.1.id ≠ e'.1.id) ∧
      ∀ e ∈ results collapse entries, e.1 ∈ messages := by
  have hsorted := pairwise_insertionSort InOrder entries.reduceOption
  have hperm := perm_insertionSort InOrder entries.reduceOption
  have hne : entries.reduceOption.Pairwise fun e e' => e.1.id ≠ e'.1.id := by
    have hpairs := Pairwise.sublist hsub hunique
    rwa [pairwise_map] at hpairs
  have hne' := (hperm.pairwise_iff fun {_ _} h => .symm h).mpr hne
  have hfirst : (results collapse entries).Sublist
      (entries.reduceOption.insertionSort InOrder) := by
    unfold results
    split
    · exact firstOfThreads_sublist _ _
    · exact .refl _
  refine ⟨.sublist hfirst (hsorted.and hne'), fun e he => hsub.subset ?_⟩
  exact mem_map_of_mem (hperm.mem_iff.mp (hfirst.subset he))

/-- The IDs of a query are valid and in order. -/
theorem Sound.queryIDs (h : Sound s) (hids : queryIDs C s.mail user args = .ok ids) :
    ids.Pairwise (Before s.mail) ∧ ∀ id ∈ ids, Valid id := by
  obtain ⟨filter, collapse, entries, hentries, rfl⟩ := queryIDs_ok hids
  have hunique : (emailSnapshot user s.mail).Pairwise fun m m' => m.id ≠ m'.id :=
    pairwise_map.mpr (h.unique.filter _)
  obtain ⟨hpairs, hmem⟩ := results_pairwise hunique (mapM_consider_sublist hentries)
  have hrow : ∀ e ∈ results collapse entries, ∃ r ∈ s.mail, r.message = e.1 := fun e he => by
    obtain ⟨r, hr, heq⟩ := mem_map.mp (hmem e he)
    exact ⟨r, (mem_filter.mp hr).1, heq⟩
  constructor
  · refine pairwise_map.mpr (hpairs.imp_of_mem fun {e e'} he he' hlt => ?_)
    obtain ⟨r, hr, hre⟩ := hrow e he
    obtain ⟨r', hr', hre'⟩ := hrow e' he'
    refine ⟨r, hr, r', hr', by rw [hre], by rw [hre'], ?_⟩
    rw [hre, hre']
    exact (precedes_iff.mp hlt.1).imp_right fun hle => ⟨hle.1, Std.lt_of_le_of_ne hle.2 hlt.2⟩
  · intro id hid
    obtain ⟨e, he, rfl⟩ := mem_map.mp hid
    obtain ⟨r, hr, hre⟩ := hrow e he
    exact hre ▸ h.valid r hr

/-! ### Steps -/

theorem Sound.remember (h : Sound s) (hq : q.ids.Pairwise (Before s.mail))
    (hvalid : ∀ id ∈ q.ids, Valid id) : Sound (rememberQuery q s).2.2 := by
  unfold rememberQuery
  split
  · exact h
  · next snapshots hsave =>
    refine ⟨h.unique, h.valid, forall_mem_cons.mpr ⟨hq, h.ordered⟩,
      forall_mem_cons.mpr ⟨hvalid, h.validIDs⟩, fun row hrow hkind => ?_⟩
    rcases Snapshots.mem_save hsave hrow with hrow | rfl
    · obtain ⟨q', hq', heq⟩ := h.remembered row hrow hkind
      exact ⟨q', mem_cons_of_mem _ hq', heq⟩
    · exact ⟨q, mem_cons_self, rfl⟩

theorem Sound.emailQuery (h : Sound s) (C : Contents) (state user : Text) (args : Args) :
    Sound (emailQuery C state user args s).2 := by
  unfold Jmap.emailQuery
  split
  · exact h
  · next ids hids =>
    obtain ⟨hordered, hvalid⟩ := h.queryIDs hids
    have hremember := h.remember (q := ⟨user, querySignature args, state, ids⟩) hordered hvalid
    dsimp only
    split <;> exact hremember

theorem Sound.queryChanges (h : Sound s) (C : Contents) (state user : Text) (args : Args) :
    Sound (queryChanges C state user args s).2 := by
  have hchanges (since : Text) (limit : ℕ) (b : Bool) :
      Sound (changesSince C state user args since limit b s).2 := by
    unfold changesSince
    split
    · exact h
    · have hquery := h.emailQuery C state user (queryArgs args)
      split
      · next heq =>
        rw [heq] at hquery
        exact hquery
      · next heq =>
        rw [heq] at hquery
        split
        · exact hquery
        · split <;> exact hquery
  unfold Jmap.queryChanges
  split
  · exact h
  · split
    · exact hchanges _ _ _
    · exact hchanges _ _ _
    · exact h

theorem Sound.step (h : Sound s) (hstep : Step s s') : Sound s' := by
  cases hstep with
  | mail _ hmail => exact h.mail hmail
  | query C state user args => exact h.emailQuery C state user args
  | changes C state user args => exact h.queryChanges C state user args
  | other _ user signature token ids hkind hsave =>
    refine ⟨h.unique, h.valid, h.ordered, h.validIDs, fun row hrow hrowKind => ?_⟩
    rcases Snapshots.mem_save hsave hrow with hrow | rfl
    · exact h.remembered row hrow hrowKind
    · exact absurd hrowKind hkind

theorem Reachable.sound (h : Reachable s) : Sound s := by
  induction h with
  | refl => exact sound_empty
  | tail _ hstep ih => exact ih.step hstep

/-! ### The edit script -/

/-- Messages have one date, so the order is strict. -/
theorem Sound.before_asymm (h : Sound s) (a b : Text) (hab : Before s.mail a b) :
    ¬Before s.mail b a := by
  have hinj {r r' : Row} (hr : r ∈ s.mail) (hr' : r' ∈ s.mail)
      (hid : r.message.id = r'.message.id) : r = r' :=
    inj_on_of_nodup_map (pairwise_map.mpr h.unique) hr hr' hid
  rintro ⟨t, ht, t', ht', htb, hta, hlt'⟩
  obtain ⟨r, hr, r', hr', hra, hrb, hlt⟩ := hab
  obtain rfl := hinj hr ht' (hra.trans hta.symm)
  obtain rfl := hinj hr' ht (hrb.trans htb.symm)
  rcases hlt with hlt | ⟨hdate, hlt⟩ <;> rcases hlt' with hlt' | ⟨hdate', hlt'⟩
  · exact lt_asymm hlt hlt'
  · exact hlt.ne hdate'
  · exact hlt'.ne hdate
  · exact List.lt_asymm hlt hlt'

/-- Queries of one token have the same IDs. -/
theorem ids_eq_of_token {queries : List Query} (hfree : CollisionFree (queries.map Query.text))
    {q' : Query} (hq : q ∈ queries) (hq' : q' ∈ queries) (h : q.token = q'.token) :
    q.ids.map repair = q'.ids.map repair := by
  have htext := hfree.eq (mem_map_of_mem hq) (mem_map_of_mem hq') h
  have hsound (q : Query) : (Value.arr [.str q.user, .str (bytes "Email"), .str q.signature,
      .str q.state, strings q.ids]).Sound :=
    ⟨trivial, trivial, trivial, trivial, sound_strings q.ids, trivial⟩
  have heq := repaired_eq_of_print (hsound q) (hsound q') htext
  simp only [Value.repaired, repairedElements, repaired_strings, Value.arr.injEq, cons.injEq,
    and_true] at heq
  exact strings_injective heq.2.2.2.2

theorem map_repair_of_valid (h : ∀ id ∈ ids, Valid id) : ids.map repair = ids := by
  rw [map_congr_left fun id hid => repair_of_valid (h id hid), map_id']

theorem querySignature_queryArgs (args : Args) :
    querySignature (queryArgs args) = querySignature args := rfl

theorem rememberQuery_true (h : (rememberQuery q s).2.1 = true) :
    (rememberQuery q s).1 = q.token ∧ q ∈ (rememberQuery q s).2.2.queries ∧
      (rememberQuery q s).2.2.snapshots.load q.user "Email" q.signature q.token =
        some (q.ids.map repair) := by
  unfold rememberQuery at h ⊢
  split at h
  · cases h
  · next hsave => exact ⟨rfl, mem_cons_self, Snapshots.load_save hsave⟩

/-- A query that can be continued is remembered. -/
theorem emailQuery_ok {answer : QueryAnswer} (h : emailQuery C state user args s = (.ok answer, s'))
    (hcan : answer.canCalculateChanges = true) : ∃ ids, queryIDs C s.mail user args = .ok ids ∧
      s'.snapshots.load user "Email" (querySignature args) answer.queryState =
        some (ids.map repair) ∧
      ∃ q ∈ s'.queries, q.ids = ids ∧ q.token = answer.queryState := by
  unfold emailQuery at h
  split at h
  · cases h
  next ids hids =>
  refine ⟨ids, hids, ?_⟩
  dsimp only at h
  split at h <;> cases h
  obtain ⟨htoken, hmem, hload⟩ := rememberQuery_true hcan
  exact ⟨htoken ▸ hload, _, hmem, rfl, htoken.symm⟩

/-- What an answer of `queryChanges` consists of. -/
theorem queryChanges_ok (h : queryChanges C state user args s = (.ok changes, s')) :
    ∃ since limit b, args.get "sinceQueryState" = .str since ∧
      (args.get "calculateTotal" = .bool true → b = true) ∧
      changesSince C state user args since limit b s = (.ok changes, s') := by
  unfold queryChanges at h
  split at h
  · cases h
  split at h
  · next since limit hsince _ htotal => exact ⟨since, _, false, hsince, by simp [htotal], h⟩
  · next since limit b hsince _ htotal => exact ⟨since, _, b, hsince, by simp [htotal], h⟩
  · cases h

theorem changesSince_ok {since : Text} {limit : ℕ} {b : Bool}
    (h : changesSince C state user args since limit b s = (.ok changes, s')) :
    ∃ old current, s.snapshots.load user "Email" (querySignature args) since = some old ∧
      queryIDs C s.mail user (queryArgs args) = .ok current ∧
      changes.removed = Delta.removed old (current.map repair) ∧
      changes.added = Delta.added old 0 (current.map repair) ∧
      (changes.total = if b then some (current.map repair).length else none) ∧
      ∃ q ∈ s'.queries, q.ids = current ∧ q.token = changes.newQueryState := by
  unfold changesSince at h
  split at h
  · cases h
  next old hold =>
  split at h
  · cases h
  next answer s₁ hanswer =>
  split at h
  · cases h
  next hcan =>
  obtain ⟨ids, hids, hload, hq⟩ := emailQuery_ok hanswer (by simpa using hcan)
  rw [querySignature_queryArgs] at hload
  rw [hload] at h
  dsimp only at h
  unfold compareQueries at h
  dsimp only at h
  split at h
  · cases h
  · cases h
    exact ⟨old, ids, hold, hids, rfl, rfl, rfl, hq⟩

/-- **queryChanges is a splice.**  The answer for the token of an earlier query leads from its IDs
to the IDs of the same query now, in order, and these are remembered under the new token. -/
theorem queryChanges_splices {s : Server} (hs : Reachable s)
    (hfree : CollisionFree (s.queries.map Query.text)) {q : Query} (hq : q ∈ s.queries)
    {C : Contents} {state user : Text} {args : Args} {changes : QueryChanges}
    (hsince : args.get "sinceQueryState" = .str q.token)
    (h : (queryChanges C state user args s).1 = .ok changes) :
    ∃ current, queryIDs C s.mail user (queryArgs args) = .ok current ∧
      Delta.splice q.ids changes.removed changes.added = current ∧
      (changes.added.Pairwise fun a b => a.1 < b.1) ∧
      (∀ n, changes.total = some n → n = current.length) ∧
      (args.get "calculateTotal" = .bool true → changes.total = some current.length) ∧
      ∃ q' ∈ (queryChanges C state user args s).2.queries,
        q'.ids = current ∧ q'.token = changes.newQueryState := by
  have hsound := hs.sound
  obtain ⟨since, limit, b, hsince', hb, h⟩ := queryChanges_ok (Prod.ext h rfl)
  obtain rfl := Value.str.inj (hsince.symm.trans hsince')
  obtain ⟨old, current, hold, hcurrent, hremoved, hadded, htotal, hnew⟩ := changesSince_ok h
  obtain ⟨hordered, hvalid⟩ := hsound.queryIDs hcurrent
  rw [map_repair_of_valid hvalid] at hremoved hadded htotal
  -- the row of the token is the row of a query with the same IDs
  obtain ⟨row, hrow, -, hkind, -, htoken, hids⟩ := Snapshots.mem_of_load hold
  obtain ⟨q₁, hq₁, rfl⟩ := hsound.remembered row hrow hkind
  have hloaded : old = q₁.ids.map repair :=
    Option.some.inj (hids.symm.trans (unmarshalStrings_print q₁.ids))
  have hqids : old = q.ids := by
    rw [hloaded, ids_eq_of_token hfree hq₁ hq htoken, map_repair_of_valid (hsound.validIDs q hq)]
  subst hqids
  refine ⟨current, hcurrent, ?_, hadded ▸ Delta.added_increasing _ _ _, fun n hn => ?_, fun h => ?_,
    hnew⟩
  · rw [hremoved, hadded]
    exact Delta.splice_script
      (Delta.filter_comm_of_pairwise hsound.before_asymm (hsound.ordered q hq) hordered)
  · rw [htotal] at hn
    split at hn
    · exact (Option.some.inj hn).symm
    · cases hn
  · rw [htotal, hb h, if_pos rfl]

/-- A message of the inbox. -/
def inboxRow (id : String) (date : ℤ) : Row where
  user := bytes "u"
  message := ⟨bytes id, bytes "inbox", [], bytes id, date⟩

/-- Messages without a text. -/
def noContents : Contents := ⟨fun _ => true, id, fun _ _ _ => false, fun _ _ => none⟩

/-- A query for the inbox is answered while it has one message. -/
def queried : Server :=
  (emailQuery noContents (bytes "1") (bytes "u") [] { mail := [inboxRow "a" 1] }).2

/-- A message arrives. -/
def grown : Server := { queried with mail := queried.mail ++ [inboxRow "b" 2] }

theorem reachable_grown : Reachable grown := by
  have hvalid (id : String) : Valid (bytes id) := (valid_iff _).mpr ⟨_, rfl⟩
  have h₁ : Step {} { mail := [inboxRow "a" 1] } :=
    .mail _ (.insert [] (inboxRow "a" 1) nofun (hvalid "a"))
  have h₂ : Step { mail := [inboxRow "a" 1] } queried := .query _ _ _ _ _
  have h₃ : Step queried grown :=
    .mail queried (.insert queried.mail (inboxRow "b" 2) (by decide +kernel) (hvalid "b"))
  exact .tail (.tail (.single h₁) h₂) h₃

/-- The query that is remembered. -/
def inboxQuery : Query := ⟨bytes "u", querySignature [], bytes "1", [bytes "a"]⟩

/-- What changed since then. -/
def sinceInbox : Args :=
  [("sinceQueryState", .str inboxQuery.token), ("calculateTotal", .bool true)]

theorem queryChanges_splices_newMail :
    (queryChanges noContents (bytes "2") (bytes "u") sinceInbox grown).1 = .ok ⟨inboxQuery.token,
      Query.token ⟨bytes "u", querySignature [], bytes "2", [bytes "b", bytes "a"]⟩, [],
      [(0, bytes "b")], some 2⟩ ∧
    ∃ current, queryIDs noContents grown.mail (bytes "u") (queryArgs sinceInbox) = .ok current ∧
      Delta.splice inboxQuery.ids [] [(0, bytes "b")] = current := by
  have hanswer : (queryChanges noContents (bytes "2") (bytes "u") sinceInbox grown).1 =
      .ok ⟨inboxQuery.token, Query.token ⟨bytes "u", querySignature [], bytes "2",
        [bytes "b", bytes "a"]⟩, [], [(0, bytes "b")], some 2⟩ := by decide +kernel
  have hqueries : grown.queries = [inboxQuery] := by decide +kernel
  have hfree : CollisionFree (grown.queries.map Query.text) := by
    intro x hx y hy _
    rw [hqueries] at hx hy
    exact (mem_singleton.mp hx).trans (mem_singleton.mp hy).symm
  have hquery : inboxQuery ∈ grown.queries := hqueries ▸ mem_singleton_self _
  obtain ⟨current, hcurrent, hsplice, -⟩ :=
    queryChanges_splices reachable_grown hfree hquery rfl hanswer
  exact ⟨hanswer, current, hcurrent, hsplice⟩

end EmailService.Jmap
