/-
EmailService/PreMailProxy.lean

The relay of the pre-mail proxy (internal/premail/proxy/transparent.go).

Blank lines, QUIT and a line without its end do not reach the backend, and the client
gets one line of what the backend answers.  Nothing closes the backend connection, so
the relay is faithful to silent clients only (`faithful_iff`).
-/
import EmailService.HeaderFields

namespace EmailService.Proxy

open HeaderFields NetMail List

abbrev Bytes := List UInt8

inductive Action
  | allow | monitor | throttle | tarpit | drop
  deriving DecidableEq

/-- What happens around a connection; commands go by their number. -/
structure Surroundings where
  /-- `unicode.ToUpper`. -/
  upper : Char → Char
  /-- Thirty seconds are over. -/
  late : ℕ → Bool
  /-- `CalculateScore`, unless it fails. -/
  calculateScore : ℕ → Option Action
  dials : Bool
  /-- The backend takes a line after these bytes. -/
  takes : Bytes → Bool
  /-- What the reads from the backend return until they fail. -/
  reads : List Bytes

/-- `Connection`, with what went over it after the banner. -/
structure Connection where
  backendOpen : Bool
  commandsIssued : ℕ
  decision : Option Action
  reads : List Bytes
  toBackend : Bytes
  toClient : Bytes

/-- The loop goes on, or ends with an error. -/
abbrev Round := Except Connection Connection

/-- `ReadString('\n')` of a new `bufio.Reader`: what it read beyond the line is lost with it. -/
def readString : List Bytes → Option (Bytes × List Bytes)
  | [] => none
  | bytes :: reads =>
    if 10 ∈ bytes then some (bytes.takeWhile (· ≠ 10) ++ [10], reads)
    else (readString reads).map fun (line, reads) => (bytes ++ line, reads)

def sendResponse (response : String) (c : Connection) : Connection :=
  { c with toClient := c.toClient ++ utf8 response }

variable (W : Surroundings) (client : Bytes)

/-- The scoring of a command. -/
def score (c : Connection) : Round :=
  if 5 ≤ c.commandsIssued ∨ W.late c.commandsIssued then
    match W.calculateScore c.commandsIssued with
    | none | some .drop => .error c
    | some action => .ok { c with decision := some action }
  else .ok c

/-- `connectToBackend`, and what is said if it fails. -/
def connectToBackend (c : Connection) : Round :=
  let unavailable := sendResponse "421 Service temporarily unavailable\r\n"
  if !W.dials then .error (unavailable c)
  else
    match readString c.reads with
    | none => .error (unavailable { c with backendOpen := true, reads := [] })
    | some (_, reads) => .ok { c with backendOpen := true, reads := reads }

/-- A line to the backend and a line back. -/
def forward (line : Bytes) (c : Connection) : Round :=
  if !c.backendOpen then .ok c
  else if !W.takes c.toBackend then .error c
  else
    let c := { c with toBackend := c.toBackend ++ line }
    match readString c.reads with
    | none => .error { c with reads := [] }
    | some (response, reads) =>
      .ok { c with reads := reads, toClient := c.toClient ++ response }

/-- A round of the loop of `processSMTPCommands`. -/
def command (c : Connection) (line : Bytes) : Round :=
  -- the content of a message goes through here as well, as if it were commands
  let cmd := trimText (text line)
  let c' := { c with commandsIssued := c.commandsIssued + 1 }
  if cmd = [] then .ok c
  else if (cmd.map (Option.map W.upper)).take 4 = "QUIT".toList.map some then
    .error (sendResponse "221 Bye\r\n" c')
  else
    score W c' >>= fun c =>
      (if !c.backendOpen && c.decision.all (· = .allow) then connectToBackend W c else .ok c) >>=
        forward W line

/-- The connection after the loop, or where it broke. -/
def ended : Round → Connection
  | .ok c | .error c => c

def processSMTPCommands (lines : List Bytes) (c : Connection) : Connection :=
  ended (lines.foldlM (command W) c)

/-- `handleConnection` from the banner on, with a client that waited for it and takes what it
gets. -/
def handleConnection : Connection :=
  processSMTPCommands W ((client.splitOn 10).dropLast.map (· ++ [10]))
    ⟨false, 0, none, W.reads, [], []⟩

/-- One side gets what the other sends, the backend after its greeting, and at the end the backend
connection is closed.  There is none for a client that sends nothing. -/
def Faithful (c : Connection) : Prop :=
  c.toBackend = client ∧
    c.toClient = (if client = [] then [] else (W.reads.flatten.dropWhile (· ≠ 10)).tail) ∧
    c.backendOpen = false

variable {W client} {c : Connection}

/-- Only an open connection to the backend takes bytes. -/
def Quiet (c : Connection) : Prop := c.backendOpen ∨ c.toBackend = []

theorem quiet_bind {r : Round} {f : Connection → Round}
    (h : Quiet (ended r)) (hf : ∀ c, Quiet c → Quiet (ended (f c))) : Quiet (ended (r >>= f)) := by
  rcases r with c | c
  · exact h
  · exact hf c h

theorem quiet_command (h : Quiet c) (line : Bytes) : Quiet (ended (command W c line)) := by
  unfold command
  dsimp only
  split_ifs
  · exact h
  · exact h
  · refine quiet_bind ?_ fun c hc => quiet_bind ?_ fun c hc => ?_
    · unfold score
      split_ifs
      · split <;> exact h
      · exact h
    · unfold connectToBackend
      grind [Quiet, sendResponse, ended]
    · unfold forward
      grind [Quiet, ended]

theorem quiet_processSMTPCommands (h : Quiet c) (lines : List Bytes) :
    Quiet (processSMTPCommands W lines c) := by
  induction lines generalizing c with
  | nil => exact h
  | cons line lines ih => exact quiet_bind (quiet_command h line) fun c hc => ih hc

theorem faithful_iff : Faithful W client (handleConnection W client) ↔ client = [] := by
  constructor
  · rintro ⟨hsent, -, hclosed⟩
    have hquiet : Quiet (handleConnection W client) := quiet_processSMTPCommands (.inr rfl) _
    -- what is opened is never closed, and what is not opened receives nothing
    rcases hquiet with hopen | hnone
    · cases hclosed.symm.trans hopen
    · exact hsent.symm.trans hnone
  · rintro rfl
    exact ⟨rfl, rfl, rfl⟩

/-- The backend got some lines, in order, after `b`. -/
def Passes (b : Bytes) (lines : List Bytes) (c : Connection) : Prop :=
  ∃ sent, sent <+ lines ∧ c.toBackend = b ++ sent.flatten

variable {b : Bytes} {l l' : List Bytes}

theorem passes_none (h : c.toBackend = b) : Passes b l c := ⟨[], nil_sublist _, by simpa using h⟩

theorem Passes.bind {r : Round} {f : Connection → Round} (h : Passes b l (ended r))
    (hf : ∀ c, Passes c.toBackend l' (ended (f c))) : Passes b (l ++ l') (ended (r >>= f)) := by
  obtain ⟨sent, hsent, heq⟩ := h
  rcases r with c | c
  · exact ⟨sent, hsent.trans (sublist_append_left _ _), heq⟩
  · obtain ⟨rest, hrest, heq'⟩ := hf c
    rw [show c.toBackend = _ from heq, append_assoc, ← flatten_append] at heq'
    exact ⟨sent ++ rest, hsent.append hrest, heq'⟩

theorem passes_command (c : Connection) (line : Bytes) :
    Passes c.toBackend [line] (ended (command W c line)) := by
  unfold command
  dsimp only
  split_ifs
  · exact passes_none rfl
  · exact passes_none rfl
  · refine .bind (l := []) (passes_none ?_) fun c => .bind (l := []) (passes_none ?_) fun c => ?_
    · unfold score
      grind [ended]
    · unfold connectToBackend
      grind [ended, sendResponse]
    · unfold forward
      split_ifs
      · exact passes_none rfl
      · exact passes_none rfl
      · dsimp only
        split <;> exact ⟨[line], .refl _, by simp [ended]⟩

/-- A backend that answers EHLO with two lines. -/
def capable : Surroundings :=
  ⟨Char.toUpper, fun _ => false, fun _ => some .allow, true, fun _ => true,
    [utf8 "220 b\r\n", utf8 "250-b\r\n250 SIZE\r\n"]⟩

theorem second_line_lost : ¬ Faithful capable (utf8 "EHLO a\r\n")
    (handleConnection capable (utf8 "EHLO a\r\n")) :=
  fun h => absurd h.2.1 (by decide +kernel)

end EmailService.Proxy
