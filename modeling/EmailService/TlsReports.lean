/-
EmailService/TlsReports.lean

The reports on TLS sessions (internal/security/tls_reports_durable.go).

`Record` counts a session in the report of the domain and the day, a file that
it reads and replaces; `SendPending` reads the files one after another, sends
those whose day is over and removes them.  Each of the two holds a mutex of its
own, so that one call of each can be under way, and a step here is what happens
between two of their looks at the clock or at the directory.  A file is taken
for the report in it, which is what reading it gives after writing it.

The day of a report is over one second before midnight, and a look at the clock
comes after the file has been read.  So a session is counted in the one report
of its day as long as every `Record` replaces the file before it closes and not
while `SendPending` has it in hand unchecked (`Timely`, `sessions_accounted`).
Otherwise a session may be lost, and a report that has been sent may come back
(`session_lost`).
-/
import EmailService.JournalName
import EmailService.Sha256
import EmailService.Utf8

namespace EmailService.TlsReports

open CivilTime List Function Option Sha256

/-! ### Reports -/

/-- A session: the arguments of `Record`. -/
structure Session where
  domain : String
  host : String
  kind : String
  success : Bool
  deriving DecidableEq

structure FailureDetails where
  resultType : String
  receivingMXHostname : String
  failedSessionCount : ℕ
  deriving DecidableEq

structure PolicyReport where
  policyType : String
  policyDomain : String
  mxHost : List String
  totalSuccessfulSessionCount : ℕ
  totalFailureSessionCount : ℕ
  failureDetails : List FailureDetails
  deriving DecidableEq

/-- `TLSRPTReport`. -/
structure Report where
  organizationName : String
  startDatetime : Time
  endDatetime : Time
  reportID : String
  policies : List PolicyReport
  deriving DecidableEq

/-- One failed session more at a host. -/
def countDetails (host : String) : List FailureDetails → List FailureDetails
  | [] => [⟨"validation-failure", host, 1⟩]
  | f :: rest =>
    if f.resultType = "validation-failure" ∧ f.receivingMXHostname = host then
      { f with failedSessionCount := f.failedSessionCount + 1 } :: rest
    else f :: countDetails host rest

def PolicyReport.count (p : PolicyReport) (s : Session) : PolicyReport :=
  if s.success then { p with totalSuccessfulSessionCount := p.totalSuccessfulSessionCount + 1 }
  else
    { p with
      totalFailureSessionCount := p.totalFailureSessionCount + 1
      failureDetails := countDetails s.host p.failureDetails }

/-- The first policy of the kind counts the session; there is a new one if
there was none. -/
def countPolicy (s : Session) : List PolicyReport → List PolicyReport
  | [] => [PolicyReport.count ⟨s.kind, s.domain, [s.host], 0, 0, []⟩ s]
  | p :: rest => if p.policyType = s.kind then p.count s :: rest else p :: countPolicy s rest

def Report.count (r : Report) (s : Session) : Report :=
  { r with policies := countPolicy s r.policies }

/-- The sessions a report counts. -/
def Report.total (r : Report) : ℕ :=
  (r.policies.map fun p => p.totalSuccessfulSessionCount + p.totalFailureSessionCount).sum

/-! ### Names -/

/-- A day, in nanoseconds. -/
def dayLength : ℤ := 86400 * 1000000000

/-- `Truncate(24 * time.Hour)`. -/
def dayStart (now : Time) : Time := now - (now - zeroTime) % dayLength

def hexDigits (b : UInt8) : List Char :=
  [Nat.digitChar (b.toNat / 16), Nat.digitChar (b.toNat % 16)]

/-- `start.Format("20060102")` and a hyphen. -/
def dateLayout : List (ℕ × List Char) := [(4, []), (2, []), (2, ['-'])]

/-- The days since year 1 began. -/
def dayNumber (start : Time) : ℕ := ((start - zeroTime) / dayLength).toNat

/-- The name of the report of a domain and a day. -/
def reportID (start : Time) (domain : String) : String :=
  String.ofList (render dateLayout (dateFields (dayNumber start)) ++
    (sum256 (Utf8.encode domain.toList)).flatMap hexDigits)

/-- A report without sessions. -/
def freshReport (org : String) (start : Time) (id : String) : Report where
  organizationName := org
  startDatetime := start
  endDatetime := start + dayLength - 1000000000
  reportID := id
  policies := []

/-! ### The two calls -/

/-- Where a call of `Record` is: before it reads the file, and before it
replaces it. -/
inductive Recorder
  | idle
  | begun (start : Time) (s : Session)
  | loaded (start : Time) (report : Report) (s : Session)

/-- Where a call of `SendPending` is: before it reads a file, before it looks at
the clock, before it sends the report, and before it removes the file. -/
inductive Sender
  | idle
  | walking (paths : List String)
  | read (path : String) (report : Report) (rest : List String)
  | closed (path : String) (report : Report) (rest : List String)
  | accepted (path : String) (rest : List String)

/-- The directory and the calls under way; beside them the sessions counted in
each report, those of them whose call has succeeded, and what has been sent. -/
structure World where
  now : Time
  files : String → Option Report
  recorder : Recorder
  sender : Sender
  log : String → List Session
  recorded : String → List Session
  sent : List (String × Report)

/-- How the file is replaced: not at all, or with an error of the directory
afterwards, or well. -/
inductive Written
  | failed
  | unreported
  | ok
  deriving DecidableEq

inductive Step
  | tick (d : ℕ)
  | begin (s : Session)
  | load (failed : Bool)
  | store (outcome : Written)
  | glob (paths : List String)
  | open (failed : Bool)
  | check
  | send (ok : Bool)
  | remove (ok : Bool)
  | stop

section Steps

variable (org : String)

/-- The file is replaced. -/
def World.store (w : World) (id : String) (report : Report) (s : Session) : World :=
  { w with
    files := update w.files id (some (report.count s))
    log := update w.log id (w.log id ++ [s])
    recorder := .idle }

def step (w : World) : Step → Option World
  | .tick d => some { w with now := w.now + d }
  -- `Record`
  | .begin s =>
    match w.recorder with
    | .idle => some { w with recorder := .begun (dayStart w.now) s }
    | _ => none
  | .load failed =>
    match w.recorder with
    | .begun start s =>
      if failed then some { w with recorder := .idle }
      else
        let id := reportID start s.domain
        some { w with
          recorder := .loaded start ((w.files id).getD (freshReport org start id)) s }
    | _ => none
  | .store outcome =>
    match w.recorder with
    | .loaded start report s =>
      let id := reportID start s.domain
      match outcome with
      | .failed => some { w with recorder := .idle }
      | .unreported => some (w.store id report s)
      | .ok => some { w.store id report s with
          recorded := update w.recorded id (w.recorded id ++ [s]) }
    | _ => none
  -- `SendPending`
  | .glob paths =>
    match w.sender with
    | .idle => some { w with sender := .walking paths }
    | _ => none
  | .open failed =>
    match w.sender with
    | .walking (path :: rest) =>
      match failed, w.files path with
      | false, some report => some { w with sender := .read path report rest }
      | _, _ => some { w with sender := .walking rest }
    | _ => none
  | .check =>
    match w.sender with
    | .read path report rest =>
      if w.now < report.endDatetime ∨ report.policies = [] then
        some { w with sender := .walking rest }
      else some { w with sender := .closed path report rest }
    | _ => none
  | .send ok =>
    match w.sender with
    | .closed path report rest =>
      if ok then
        some { w with sender := .accepted path rest, sent := w.sent ++ [(path, report)] }
      else some { w with sender := .walking rest }
    | _ => none
  | .remove ok =>
    match w.sender with
    | .accepted path rest =>
      if ok then
        some { w with sender := .walking rest, files := update w.files path none }
      else some { w with sender := .walking rest }
    | _ => none
  | .stop =>
    match w.sender with
    | .walking _ => some { w with sender := .idle }
    | _ => none

/-- The beginning: an empty directory and no call. -/
def World.start (now : Time) : World where
  now := now
  files _ := none
  recorder := .idle
  sender := .idle
  log _ := []
  recorded _ := []
  sent := []

/-- `Run org Allowed w w'`: steps that are allowed where they are made lead from
`w` to `w'`, while the clock shows instants it can show. -/
inductive Run (Allowed : World → Step → Prop) (w : World) : World → Prop
  | start : Run Allowed w w
  | step {w₁ w₂ : World} {a : Step} (h : Run Allowed w w₁) (hallowed : Allowed w₁ a)
      (hstep : step org w₁ a = some w₂) (hclock : Representable w₂.now) : Run Allowed w w₂

end Steps

/-- A `Record` replaces its file before the report closes, and not between the
moment `SendPending` reads that file and its look at the clock. -/
def Timely (w : World) : Step → Prop
  | .store _ => ∀ start report s, w.recorder = .loaded start report s →
      w.now < report.endDatetime ∧
        ∀ path r rest, w.sender = .read path r rest → path ≠ reportID start s.domain
  | _ => True

/-! ### Counting -/

theorem PolicyReport.total_count (p : PolicyReport) (s : Session) :
    (p.count s).totalSuccessfulSessionCount + (p.count s).totalFailureSessionCount =
      p.totalSuccessfulSessionCount + p.totalFailureSessionCount + 1 := by
  unfold PolicyReport.count
  split_ifs
  · dsimp only
    omega
  · dsimp only
    omega

theorem Report.total_count (r : Report) (s : Session) : (r.count s).total = r.total + 1 := by
  unfold Report.total Report.count
  dsimp only
  induction r.policies with
  | nil => simp [countPolicy, PolicyReport.total_count]
  | cons p rest ih =>
    rw [countPolicy]
    split_ifs
    · simp only [map_cons, sum_cons, PolicyReport.total_count]
      omega
    · simp only [map_cons, sum_cons, ih]
      omega

/-- The report after some sessions. -/
def tally (org : String) (start : Time) (id : String) (ss : List Session) : Report :=
  ss.foldl Report.count (freshReport org start id)

section Tally

variable {org : String} {start : Time} {id : String} (ss : List Session)

theorem tally_append (s : Session) :
    tally org start id (ss ++ [s]) = (tally org start id ss).count s := by
  rw [tally, foldl_append]
  rfl

theorem tally_dates :
    (tally org start id ss).startDatetime = start ∧
      (tally org start id ss).endDatetime = start + dayLength - 1000000000 := by
  induction ss using reverseRecOn with
  | nil => exact ⟨rfl, rfl⟩
  | append_singleton ss s ih =>
    rw [tally_append]
    exact ih

theorem total_tally : (tally org start id ss).total = ss.length := by
  induction ss using reverseRecOn with
  | nil => rfl
  | append_singleton ss s ih =>
    rw [tally_append, Report.total_count, ih, length_append]
    rfl

end Tally

/-! ### Names -/

/-- The beginning of a day that the clock can show. -/
def IsDay (start : Time) : Prop := ∃ t, Representable t ∧ start = dayStart t

theorem length_render_dateLayout (d : ℕ) : (render dateLayout (dateFields d)).length = 9 := by
  simp [dateLayout, dateFields, render]

variable {start' : Time} {org : String} {w w' : World} {as : List Step} {start : Time}

/-- The beginnings of days are ordered as their numbers. -/
theorem IsDay.dayNumber_lt (h : IsDay start) (h' : IsDay start')
    (hlt : start < start') :
    dayNumber start < dayNumber start' ∧ dayNumber start' < 9999 * 365 := by
  obtain ⟨t, ht, rfl⟩ := h
  obtain ⟨t', ht', rfl⟩ := h'
  have hnonneg := ht.nonneg
  have hbound := ht'.lt
  have hlt' : t - (t - zeroTime) % dayLength < t' - (t' - zeroTime) % dayLength := hlt
  simp only [dayNumber, dayStart, dayLength, zeroTime] at hlt' ⊢
  omega

theorem reportID_ne (h : IsDay start) (h' : IsDay start') (hlt : start < start')
    (domain domain' : String) : reportID start domain ≠ reportID start' domain' := by
  obtain ⟨hdays, hbound⟩ := h.dayNumber_lt h' hlt
  have hdates : render dateLayout (dateFields (dayNumber start)) <
      render dateLayout (dateFields (dayNumber start')) :=
    render_lt_render (fits_dateFields (hdays.trans hbound) [] [] ['-'])
      (fits_dateFields hbound [] [] ['-']) (dateFields_lt_dateFields hdays)
  have hlength : (render dateLayout (dateFields (dayNumber start))).length =
      (render dateLayout (dateFields (dayNumber start'))).length := by
    rw [length_render_dateLayout, length_render_dateLayout]
  intro heq
  have hnames := append_lt_append_of_lt hlength hdates
    ((sum256 (Utf8.encode domain.toList)).flatMap hexDigits)
    ((sum256 (Utf8.encode domain'.toList)).flatMap hexDigits)
  rw [String.ofList_injective heq] at hnames
  exact lt_irrefl _ hnames

/-- **The name of a report says its day.** -/
theorem start_of_reportID (h : IsDay start) (h' : IsDay start')
    {domain domain' : String} (heq : reportID start domain = reportID start' domain') :
    start = start' := by
  rcases lt_trichotomy start start' with hlt | hsame | hlt
  · exact absurd heq (reportID_ne h h' hlt domain domain')
  · exact hsame
  · exact absurd heq.symm (reportID_ne h' h hlt domain' domain)

-- from here on a name is a name
attribute [irreducible] reportID

/-! ### The invariant -/

/-- The report of a name counts the sessions, and there are some. -/
def Counts (org : String) (id : String) (r : Report) (ss : List Session) : Prop :=
  ss ≠ [] ∧ r = tally org r.startDatetime id ss ∧
    ∃ domain, IsDay r.startDatetime ∧ id = reportID r.startDatetime domain

/-- What a call of `Record` has in hand: as long as the report is open, the file
as it is. -/
def Recorder.Sound (org : String) (w : World) : Recorder → Prop
  | .idle => True
  | .begun start _ => IsDay start
  | .loaded start report s => IsDay start ∧
      report.endDatetime = start + dayLength - 1000000000 ∧
      (w.now < report.endDatetime →
        report = (w.files (reportID start s.domain)).getD
          (freshReport org start (reportID start s.domain)))

/-- What a call of `SendPending` has in hand. -/
def Sender.Sound (w : World) : Sender → Prop
  | .idle | .walking _ => True
  | .read path report _ => w.files path = some report
  | .closed path report _ => w.files path = some report ∧ report.endDatetime ≤ w.now
  | .accepted path _ => ∃ report, (path, report) ∈ w.sent

structure Inv (org : String) (w : World) : Prop where
  clock : Representable w.now
  files : ∀ id r, w.files id = some r → Counts org id r (w.log id)
  logged : ∀ id, w.log id ≠ [] → w.files id ≠ none ∨ ∃ r, (id, r) ∈ w.sent
  sent : ∀ id r, (id, r) ∈ w.sent → Counts org id r (w.log id) ∧ r.endDatetime ≤ w.now
  recorder : w.recorder.Sound org w
  sender : w.sender.Sound w
  recorded : ∀ id, (w.recorded id).Sublist (w.log id)

section Invariant

variable {org : String} {w w' : World} {id : String} {r r' : Report} {ss : List Session}

theorem Counts.endDatetime (h : Counts org id r ss) :
    r.endDatetime = r.startDatetime + dayLength - 1000000000 := by
  obtain ⟨-, htally, -⟩ := h
  rw [htally]
  exact (tally_dates ss).2.trans (by rw [(tally_dates ss).1])

variable {domain path : String} {s : Session} {rest : List String} {a : Step}

/-- Two reports of one name have the same day. -/
theorem Counts.start_eq (h : Counts org id r ss) {start : Time} (hday : IsDay start)
    (hid : id = reportID start domain) : r.startDatetime = start := by
  obtain ⟨-, -, domain', hday', hid'⟩ := h
  exact start_of_reportID hday' hday (hid'.symm.trans hid)

theorem Counts.unique (h : Counts org id r ss) (h' : Counts org id r' ss) : r = r' := by
  obtain ⟨-, htally', domain', hday', hid'⟩ := h'
  have hstart := h.start_eq hday' hid'
  obtain ⟨-, htally, -⟩ := h
  rw [htally, htally', hstart]

theorem inv_start {t : Time} (ht : Representable t) : Inv org (World.start t) where
  clock := ht
  files := nofun
  logged := fun _ h => absurd rfl h
  sent := nofun
  recorder := trivial
  sender := trivial
  recorded := fun _ => .refl _

section

variable (h : Inv org w)

include h

/-- A report that is open has not been sent. -/
theorem Inv.not_sent {start : Time} (hday : IsDay start)
    (hopen : w.now < start + dayLength - 1000000000) : (reportID start domain, r) ∉ w.sent := by
  intro hmem
  obtain ⟨hcounts, hend⟩ := h.sent _ _ hmem
  rw [hcounts.endDatetime, hcounts.start_eq hday rfl] at hend
  exact absurd hopen (not_lt.mpr hend)

/-- **One session more**, in a report that is open and that `SendPending` does
not have in hand unchecked. -/
theorem Inv.store {start : Time} (hrecorder : w.recorder = .loaded start r s)
    (htimely : Timely w (.store .ok)) : Inv org (w.store (reportID start s.domain) r s) := by
  obtain ⟨hopen, hread⟩ := htimely start r s hrecorder
  have hsound := h.recorder
  rw [hrecorder] at hsound
  obtain ⟨hday, hend, hcurrent⟩ := hsound
  have hcurrent := hcurrent hopen
  rw [hend] at hopen
  have hnot : ∀ r', (reportID start s.domain, r') ∉ w.sent := fun r' => h.not_sent hday hopen
  -- the file as it is counts the sessions so far
  have htally :
      r = tally org start (reportID start s.domain) (w.log (reportID start s.domain)) := by
    rcases hfile : w.files (reportID start s.domain) with - | r₀
    · rw [hfile, getD_none] at hcurrent
      have hnil : w.log (reportID start s.domain) = [] := by
        by_contra hne
        rcases h.logged _ hne with hsome | ⟨r', hr'⟩
        · exact hsome hfile
        · exact hnot r' hr'
      rw [hnil, hcurrent]
      rfl
    · rw [hfile, getD_some] at hcurrent
      subst hcurrent
      have hcounts := h.files _ _ hfile
      have hstart := hcounts.start_eq hday rfl
      have htally := hcounts.2.1
      rwa [hstart] at htally
  have hcounts : Counts org (reportID start s.domain) (r.count s)
      (w.log (reportID start s.domain) ++ [s]) := by
    have hstart : (r.count s).startDatetime = start := by
      rw [htally]
      exact (tally_dates _).1
    refine ⟨by simp, ?_, s.domain, by rwa [hstart], by rw [hstart]⟩
    rw [hstart, tally_append, ← htally]
  refine
    { clock := h.clock
      files := fun id' r' hr' => ?_
      logged := fun id' hne => ?_
      sent := fun id' r' hr' => ?_
      recorder := trivial
      sender := ?_
      recorded := fun id' => ?_ }
  · by_cases hid : id' = reportID start s.domain
    · subst hid
      simp only [World.store, update_self, some_inj] at hr' ⊢
      rw [← hr']
      exact hcounts
    · simp only [World.store, update_of_ne hid] at hr' ⊢
      exact h.files id' r' hr'
  · by_cases hid : id' = reportID start s.domain
    · subst hid
      left
      simp [World.store]
    · simp only [World.store, update_of_ne hid] at hne ⊢
      exact h.logged id' hne
  · by_cases hid : id' = reportID start s.domain
    · subst hid
      exact absurd hr' (hnot r')
    · simp only [World.store, update_of_ne hid]
      exact h.sent id' r' hr'
  · have hsender := h.sender
    change w.sender.Sound _
    generalize hphase : w.sender = phase at hsender
    cases phase with
    | idle => trivial
    | walking paths => trivial
    | read path report rest =>
      have hne := hread path report rest hphase
      exact (update_of_ne hne _ _).trans hsender
    | closed path report rest =>
      -- a report that is closed is another one
      have hne : path ≠ reportID start s.domain := by
        rintro rfl
        have hfile := h.files _ _ hsender.1
        have hclosed := hsender.2
        rw [hfile.endDatetime, hfile.start_eq hday rfl] at hclosed
        exact absurd hopen (not_lt.mpr hclosed)
      exact ⟨(update_of_ne hne _ _).trans hsender.1, hsender.2⟩
    | accepted path rest => exact hsender
  · by_cases hid : id' = reportID start s.domain
    · subst hid
      simp only [World.store, update_self]
      exact (h.recorded _).trans (sublist_append_left _ _)
    · simp only [World.store, update_of_ne hid]
      exact h.recorded id'

theorem Inv.tick (d : ℕ) (hclock : Representable (w.now + d)) :
    Inv org { w with now := w.now + d } := by
  have hle : w.now ≤ w.now + (d : ℤ) := le_add_of_nonneg_right (Int.natCast_nonneg d)
  refine
    { clock := hclock
      files := h.files
      logged := h.logged
      sent := fun id r hr => ⟨(h.sent id r hr).1, (h.sent id r hr).2.trans hle⟩
      recorder := ?_
      sender := ?_
      recorded := h.recorded }
  · have hsound := h.recorder
    change w.recorder.Sound org _
    cases hphase : w.recorder with
    | idle => trivial
    | begun start s =>
      rw [hphase] at hsound
      exact hsound
    | loaded start report s =>
      rw [hphase] at hsound
      exact ⟨hsound.1, hsound.2.1, fun hopen => hsound.2.2 (hle.trans_lt hopen)⟩
  · have hsound := h.sender
    change w.sender.Sound _
    cases hphase : w.sender with
    | idle => trivial
    | walking paths => trivial
    | read path report rest =>
      rw [hphase] at hsound
      exact hsound
    | closed path report rest =>
      rw [hphase] at hsound
      exact ⟨hsound.1, hsound.2.trans hle⟩
    | accepted path rest =>
      rw [hphase] at hsound
      exact hsound

/-- A step of `Record` that changes nothing but what it has in hand. -/
theorem Inv.record {phase : Recorder}
    (hphase : phase.Sound org { w with recorder := phase }) :
    Inv org { w with recorder := phase } :=
  { clock := h.clock
    files := h.files
    logged := h.logged
    sent := h.sent
    recorder := hphase
    sender := h.sender
    recorded := h.recorded }

/-- A step of `SendPending` that changes nothing but what it has in hand. -/
theorem Inv.send {phase : Sender}
    (hphase : phase.Sound { w with sender := phase }) : Inv org { w with sender := phase } :=
  { clock := h.clock
    files := h.files
    logged := h.logged
    sent := h.sent
    recorder := h.recorder
    sender := hphase
    recorded := h.recorded }

/-- The file that is read is the report so far, or there is none. -/
theorem Inv.load {start : Time} (hday : IsDay start) :
    Inv org { w with recorder := .loaded start ((w.files (reportID start s.domain)).getD
      (freshReport org start (reportID start s.domain))) s } := by
  refine h.record ⟨hday, ?_, fun _ => rfl⟩
  rcases hfile : w.files (reportID start s.domain) with - | r
  · rfl
  · have hcounts := h.files _ _ hfile
    rw [getD_some, hcounts.endDatetime, hcounts.start_eq hday rfl]

/-- What is sent is the report as it is, and it is closed. -/
theorem Inv.deliver (hsender : w.sender = .closed path r rest) :
    Inv org { w with sender := .accepted path rest, sent := w.sent ++ [(path, r)] } := by
  have hsound := h.sender
  rw [hsender] at hsound
  refine
    { clock := h.clock
      files := h.files
      logged := fun id hne => (h.logged id hne).imp_right fun ⟨r', hr'⟩ =>
        ⟨r', mem_append_left _ hr'⟩
      sent := fun id r' hr' => ?_
      recorder := h.recorder
      sender := ⟨r, mem_append_right _ (mem_singleton_self _)⟩
      recorded := h.recorded }
  rcases mem_append.mp hr' with hold | hnew
  · exact h.sent id r' hold
  · cases mem_singleton.mp hnew
    exact ⟨h.files _ _ hsound.1, hsound.2⟩

/-- The file of a report that has been sent goes away. -/
theorem Inv.discard (hsender : w.sender = .accepted path rest) :
    Inv org
      { w with sender := .walking rest, files := update w.files path none } := by
  have hsound := h.sender
  rw [hsender] at hsound
  obtain ⟨r, hsent⟩ := hsound
  refine
    { clock := h.clock
      files := fun id r' hr' => ?_
      logged := fun id hne => ?_
      sent := h.sent
      recorder := ?_
      sender := trivial
      recorded := h.recorded }
  · by_cases hid : id = path
    · subst hid
      simp at hr'
    · exact h.files id r' ((update_of_ne hid _ _).symm.trans hr')
  · by_cases hid : id = path
    · subst hid
      exact .inr ⟨r, hsent⟩
    · refine (h.logged id hne).imp_left fun hsome => ?_
      exact fun hnone => hsome ((update_of_ne hid _ _).symm.trans hnone)
  · have hsound := h.recorder
    change w.recorder.Sound org _
    cases hphase : w.recorder with
    | idle => trivial
    | begun start s =>
      rw [hphase] at hsound
      exact hsound
    | loaded start report s =>
      rw [hphase] at hsound
      obtain ⟨hday, hend, hcurrent⟩ := hsound
      refine ⟨hday, hend, fun hopen => ?_⟩
      -- a report that is open has not been sent, so its file stays
      have hne : reportID start s.domain ≠ path := by
        rintro rfl
        exact h.not_sent hday (hend ▸ hopen) hsent
      rw [hcurrent hopen]
      simp only [update_of_ne hne]

/-- **Every step keeps the invariant.** -/
theorem Inv.step (htimely : Timely w a) (hstep : step org w a = some w')
    (hclock : Representable w'.now) : Inv org w' := by
  cases a with
  | tick d =>
    cases hstep
    exact h.tick d hclock
  | begin s =>
    rw [step] at hstep
    split at hstep
    · cases hstep
      exact h.record ⟨w.now, h.clock, rfl⟩
    · cases hstep
  | load failed =>
    have hsound := h.recorder
    rw [step] at hstep
    split at hstep
    next start s hphase =>
      rw [hphase] at hsound
      cases failed with
      | true =>
        cases hstep
        exact h.record trivial
      | false =>
        cases hstep
        exact h.load hsound
    next => cases hstep
  | store outcome =>
    rw [step] at hstep
    split at hstep
    next start report s hphase =>
      cases outcome with
      | failed =>
        cases hstep
        exact h.record trivial
      | unreported =>
        cases hstep
        exact h.store hphase htimely
      | ok =>
        cases hstep
        have hstore := h.store hphase htimely
        refine { hstore with recorded := fun id' => ?_ }
        by_cases hid : id' = reportID start s.domain
        · subst hid
          simp only [World.store, update_self]
          exact (h.recorded _).append (.refl _)
        · simp only [World.store, update_of_ne hid]
          exact h.recorded id'
    next => cases hstep
  | glob paths =>
    rw [step] at hstep
    split at hstep
    · cases hstep
      exact h.send trivial
    · cases hstep
  | «open» failed =>
    rw [step] at hstep
    split at hstep
    next path rest hphase =>
      split at hstep
      next report hfile =>
        cases hstep
        exact h.send hfile
      next =>
        cases hstep
        exact h.send trivial
    next => cases hstep
  | check =>
    have hsound := h.sender
    rw [step] at hstep
    split at hstep
    next path report rest hphase =>
      rw [hphase] at hsound
      split_ifs at hstep with hopen
      · cases hstep
        exact h.send trivial
      · cases hstep
        exact h.send ⟨hsound, not_lt.mp fun hlt => hopen (.inl hlt)⟩
    next => cases hstep
  | send ok =>
    rw [step] at hstep
    split at hstep
    next path report rest hphase =>
      cases ok with
      | true =>
        cases hstep
        exact h.deliver hphase
      | false =>
        cases hstep
        exact h.send trivial
    next => cases hstep
  | remove ok =>
    rw [step] at hstep
    split at hstep
    next path rest hphase =>
      cases ok with
      | true =>
        cases hstep
        exact h.discard hphase
      | false =>
        cases hstep
        exact h.send trivial
    next => cases hstep
  | stop =>
    rw [step] at hstep
    split at hstep
    · cases hstep
      exact h.send trivial
    · cases hstep

end

theorem Run.inv (hrun : Run org Timely w w') (h : Inv org w) : Inv org w' := by
  induction hrun with
  | start => exact h
  | step _ htimely hstep hclock ih => exact ih.step htimely hstep hclock

/-- What a step may do to the sessions counted and to what has been sent. -/
theorem step_log (hstep : step org w a = some w') :
    (w'.log = w.log ∨ ∃ start report s, w.recorder = .loaded start report s ∧
      (∃ outcome, a = .store outcome) ∧ ∀ id, id ≠ reportID start s.domain →
        w'.log id = w.log id) ∧ w.sent ⊆ w'.sent := by
  have hsame : ∀ sent : List (String × Report), w.sent ⊆ w.sent ++ sent := fun sent =>
    subset_append_left _ _
  cases a with
  | store outcome =>
    rw [step] at hstep
    split at hstep
    next start report s hphase =>
      cases outcome <;> cases hstep
      · exact ⟨.inl rfl, fun _ h => h⟩
      · exact ⟨.inr ⟨start, report, s, hphase, ⟨_, rfl⟩, fun id hid =>
          update_of_ne hid _ _⟩, fun _ h => h⟩
      · exact ⟨.inr ⟨start, report, s, hphase, ⟨_, rfl⟩, fun id hid =>
          update_of_ne hid _ _⟩, fun _ h => h⟩
    next => cases hstep
  | tick d =>
    cases hstep
    exact ⟨.inl rfl, fun _ h => h⟩
  | begin | load | glob | «open» | check | send | remove | stop =>
    simp only [step] at hstep
    split at hstep <;> (try split at hstep) <;>
      first
      | cases hstep; exact ⟨.inl rfl, fun _ h => h⟩
      | cases hstep; exact ⟨.inl rfl, hsame _⟩
      | cases hstep

/-- A report that has been sent stays as it was sent. -/
theorem Run.sent_kept (hrun : Run org Timely w w') (h : Inv org w) (hsent : (id, r) ∈ w.sent) :
    (id, r) ∈ w'.sent ∧ w'.log id = w.log id := by
  induction hrun with
  | start => exact ⟨hsent, rfl⟩
  | @step w₁ w₂ a hrun htimely hstep hclock ih =>
    obtain ⟨hlog, hsub⟩ := step_log hstep
    refine ⟨hsub ih.1, ?_⟩
    rcases hlog with hlog | ⟨start, report, s, hphase, ⟨outcome, rfl⟩, hothers⟩
    · rw [hlog, ih.2]
    · rw [hothers, ih.2]
      rintro rfl
      have hinv := hrun.inv h
      have hsound := hinv.recorder
      rw [hphase] at hsound
      have hopen := (htimely start report s hphase).1
      rw [hsound.2.1] at hopen
      exact hinv.not_sent hsound.1 hopen ih.1

end Invariant

/-! ### Sessions are accounted for -/

/-- Every session is counted in the one report of its name, which is pending or
has been sent. -/
structure Accounted (org : String) (w : World) : Prop where
  /-- A session whose call has succeeded is among those counted. -/
  recorded : ∀ id, (w.recorded id).Sublist (w.log id)
  /-- The report of a name is there, or it has been sent. -/
  present : ∀ id, w.log id ≠ [] → ∃ r, w.files id = some r ∨ (id, r) ∈ w.sent
  /-- It counts the sessions of that name. -/
  counted : ∀ id r, w.files id = some r ∨ (id, r) ∈ w.sent →
    r = tally org r.startDatetime id (w.log id) ∧ r.total = (w.log id).length
  /-- A file that is still there after it has been sent is what has been sent. -/
  single : ∀ id r r', w.files id = some r → (id, r') ∈ w.sent → r = r'

theorem Inv.accounted (h : Inv org w) : Accounted org w where
  recorded := h.recorded
  present := by
    intro id hne
    rcases h.logged id hne with hsome | ⟨r, hr⟩
    · obtain ⟨r, hr⟩ := ne_none_iff_exists'.mp hsome
      exact ⟨r, .inl hr⟩
    · exact ⟨r, .inr hr⟩
  counted := by
    intro id r hr
    have hcounts : Counts org id r (w.log id) :=
      hr.elim (h.files id r) fun hsent => (h.sent id r hsent).1
    have htally := hcounts.2.1
    refine ⟨htally, ?_⟩
    rw [htally]
    exact total_tally _
  single := fun id r r' hr hr' => (h.files id r hr).unique (h.sent id r' hr').1

/-- **No session is lost, and a report that has been sent is not changed**, in
every run in which each `Record` is timely. -/
theorem sessions_accounted (org : String) (t : Time) (w : World) (ht : Representable t)
    (hrun : Run org Timely (World.start t) w) :
    Accounted org w ∧ ∀ w', Run org Timely w w' → ∀ id r, (id, r) ∈ w.sent →
      (id, r) ∈ w'.sent ∧ w'.log id = w.log id ∧ ∀ r', w'.files id = some r' → r' = r := by
  have hinv := hrun.inv (inv_start ht)
  refine ⟨hinv.accounted, fun w' hrun' id r hsent => ?_⟩
  obtain ⟨hsent', hlog⟩ := hrun'.sent_kept hinv hsent
  exact ⟨hsent', hlog, fun r' hr' => (hrun'.inv hinv).accounted.single id r' r hr' hsent'⟩

/-- One session at the beginning of a day. -/
theorem sessions_accounted_once :
    ∃ w, Accounted "org" w ∧
      w.recorded (reportID (dayStart 0) "a.example") = [⟨"a.example", "mx1", "sts", true⟩] := by
  have hclock : Representable 0 := ⟨le_rfl, by decide⟩
  refine ⟨_, (sessions_accounted "org" 0 _ hclock (.step (a := .store .ok)
    (.step (a := .load false) (.step (a := .begin ⟨"a.example", "mx1", "sts", true⟩)
      .start trivial rfl hclock) trivial rfl hclock) ?_ rfl hclock)).1, update_self _ _ _⟩
  intro start report s h
  cases h
  exact ⟨by decide, nofun⟩

/-! ### Runs of steps -/

/-- Carry out some steps. -/
def World.steps (org : String) (w : World) : List Step → Option World
  | [] => some w
  | a :: rest => (step org w a).bind fun w' => w'.steps org rest

/-- How long a step takes. -/
def Step.duration : Step → ℕ
  | .tick d => d
  | _ => 0

theorem step_now {a : Step} (h : step org w a = some w') : w'.now = w.now + (a.duration : ℤ) := by
  cases a with
  | tick d =>
    cases h
    rfl
  | store outcome =>
    simp only [step] at h
    split at h
    · cases outcome <;> cases h <;> exact (Int.add_zero _).symm
    · cases h
  | begin | load | glob | «open» | check | send | remove | stop =>
    simp only [step] at h
    split at h <;> (try split at h) <;> cases h <;> exact (Int.add_zero _).symm

/-- Steps that the clock can show make a run. -/
theorem run_steps {w₀ : World} (hrun : Run org (fun _ _ => True) w₀ w)
    (hclock : Representable w.now) (hticks : w.now + ((as.map Step.duration).sum : ℤ) < 2 ^ 63)
    (h : w.steps org as = some w') : Run org (fun _ _ => True) w₀ w' := by
  induction as generalizing w with
  | nil =>
    cases h
    exact hrun
  | cons a rest ih =>
    obtain ⟨w₁, hstep, hrest⟩ := bind_eq_some_iff.mp h
    have hnow := step_now hstep
    rw [map_cons, sum_cons, Nat.cast_add, ← add_assoc, ← hnow] at hticks
    have hclock₁ : Representable w₁.now :=
      ⟨by rw [hnow]; exact add_nonneg hclock.nonneg (Int.natCast_nonneg _),
        (le_add_of_nonneg_right (Int.natCast_nonneg _)).trans_lt hticks⟩
    exact ih (.step hrun trivial hstep hclock₁) hclock₁ hticks hrest

/-- A session at a domain. -/
def visit (host : String) : Session := ⟨"a.example", host, "sts", true⟩

def visitID : String := reportID 0 "a.example"

/-- `SendPending` finds the report closed in the last second of the day; then
comes another session; then the report is sent and the file removed. -/
def lateSession : List Step :=
  [.begin (visit "mx1"), .load false, .store .ok, .tick 86399000000000, .glob [visitID],
    .open false, .check, .begin (visit "mx2"), .load false, .store .ok, .send true, .remove true]

/-- A second session is under way while the report is sent and the file
removed, and replaces the file afterwards. -/
def slowSession : List Step :=
  [.begin (visit "mx1"), .load false, .store .ok, .begin (visit "mx2"), .load false,
    .tick 86399000000000, .glob [visitID], .open false, .check, .send true, .remove true,
    .store .ok]

/-- What is to be seen of a report: the sessions recorded, the number counted in
the file, and in what has been sent. -/
def World.summary (w : World) (id : String) : List Session × Option ℕ × List ℕ :=
  (w.recorded id, (w.files id).map Report.total, w.sent.map fun p => p.2.total)

theorem steps_summary :
    ((World.start 0).steps "org" lateSession).map (World.summary · visitID) =
        some ([visit "mx1", visit "mx2"], none, [1]) ∧
      ((World.start 0).steps "org" slowSession).map (World.summary · visitID) =
        some ([visit "mx1", visit "mx2"], some 2, [1]) := by
  decide +kernel

theorem run_of_summary {summary : List Session × Option ℕ × List ℕ}
    (hticks : (as.map Step.duration).sum < 2 ^ 63)
    (h : ((World.start 0).steps "org" as).map (World.summary · visitID) = some summary) :
    ∃ w, Run "org" (fun _ _ => True) (World.start 0) w ∧ w.summary visitID = summary := by
  obtain ⟨w, hw, hsummary⟩ := map_eq_some_iff.mp h
  have hticks' : (0 : ℤ) + ((as.map Step.duration).sum : ℤ) < 2 ^ 63 := by
    rw [zero_add]
    exact_mod_cast hticks
  exact ⟨w, run_steps .start ⟨le_rfl, by decide⟩ hticks' hw, hsummary⟩

/-- **A session is lost**: two are recorded, the file is gone, and the report
that has been sent counts one.  **A report that has been sent comes back**, with
a session more. -/
theorem session_lost :
    (∃ w, Run "org" (fun _ _ => True) (World.start 0) w ∧
      w.summary visitID = ([visit "mx1", visit "mx2"], none, [1])) ∧
    ∃ w, Run "org" (fun _ _ => True) (World.start 0) w ∧
      w.summary visitID = ([visit "mx1", visit "mx2"], some 2, [1]) :=
  ⟨run_of_summary (by decide) steps_summary.1, run_of_summary (by decide) steps_summary.2⟩

end EmailService.TlsReports
