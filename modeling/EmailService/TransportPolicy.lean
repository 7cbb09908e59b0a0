/-
EmailService/TransportPolicy.lean

DANE and MTA-STS together, over the loop of `deliverToDomain`.

The two are decided in different places.  `ShouldEnforceTLS` chooses between
two ways to dial: `dialSMTP`, which looks up TLSA records, and `dialNextHop`,
which authenticates by PKIX and looks up nothing.  `guard` watches the dialogue
of a delivery: message data may be written only on a connection that satisfies
every policy in force for the host (`Satisfies`).

`policies_compose_iff` says which policy states of a domain and of its MX hosts
keep that law, whatever the network does: where a policy in enforce mode lists
a host, its TLSA records must ask for nothing.
-/
import EmailService.DaneAuth
import EmailService.DaneCache
import EmailService.Delivery
import EmailService.MtaSts

namespace EmailService

open GoStrings Program Dane Sts List

namespace TransportPolicy

/-! ### The connections -/

/-- `net.SplitHostPort`. -/
def splitHostPort (hostport : String) : Option (String × String) :=
  let cs := hostport.toList
  if ':' ∉ cs then none
  else
    let port := (cs.reverse.takeWhile (· ≠ ':')).reverse
    let before := cs.take (cs.length - port.length - 1)
    match cs with
    | '[' :: rest =>
      let host := rest.takeWhile (· ≠ ']')
      if before ≠ '[' :: (host ++ [']']) ∨ '[' ∈ rest ∨ ']' ∈ port then none
      else some (String.ofList host, String.ofList port)
    | _ =>
      if ':' ∈ before ∨ '[' ∈ cs ∨ ']' ∈ cs then none
      else some (String.ofList before, String.ofList port)

/-- The host of an address; the source drops the error. -/
def hostOf (address : String) : String := ((splitHostPort address).map Prod.fst).getD ""

/-- What one connection meets, whichever way it is dialled. -/
structure Meeting where
  dane : State
  dial : Dial
  keyPairErr : Option String := none
  caErr : Option String := none
  secret : String := ""
  authErr : Option String := none

/-- An open connection: to which host, whether under TLS, and the certificates
the server presented. -/
structure Link where
  host : String
  tls : Bool
  rawCerts : List (List UInt8)

/-- Whether a trust store (that of the system, or a CA file) verifies a list of
certificates for a name. -/
abbrev Trust := String → List (List UInt8) → String → Bool

/-- The name a next hop is authenticated under. -/
def hopName (hop : NextHop) : String :=
  if hop.serverName = "" then hostOf hop.address else hop.serverName

/-- The STARTTLS part of `dialNextHop`. -/
def secureHop (trust : Trust) (m : Meeting) (hop : NextHop) : Option String :=
  if !m.dial.starttlsOffered then some "connector requires STARTTLS"
  else
    match if hop.clientCert ≠ "" then m.keyPairErr else none with
    | some err => some err
    | none =>
      match if hop.caFile ≠ "" then m.caErr else none with
      | some err => some err
      | none =>
        if hopName hop = "" then
          some "tls: either ServerName or InsecureSkipVerify must be specified"
        else
          match m.dial.handshakeErr with
          | some err => some err
          | none =>
            if trust hop.caFile m.dial.rawCerts (hopName hop) then none
            else some "tls: failed to verify certificate"

/-- The AUTH part of `dialNextHop`. -/
def authHop (m : Meeting) (hop : NextHop) : Option String :=
  if hop.username ≠ "" then
    if m.secret = "" then some "missing connector secret environment variable" else m.authErr
  else none

/-- `dialNextHop`. -/
def dialHop (trust : Trust) (m : Meeting) (hop : NextHop) : Option String :=
  match m.dial.dialErr with
  | some err => some err
  | none =>
    match m.dial.greetingErr with
    | some err => some err
    | none =>
      match m.dial.helloErr with
      | some err => some err
      | none =>
        match if hop.requireTLS then secureHop trust m hop else none with
        | some err => some err
        | none => authHop m hop

/-! ### The world of a delivery -/

/-- The configuration, and the tables and functions of the libraries. -/
structure Setup where
  U : CaseTables
  T : Dane.Tables
  C : Crypto
  dane : Settings
  delivery : MailDelivery

/-- What the questions of a delivery meet, one after the other; which MX host
MTA-STS was asked about last, and the policy that was in force then; and the
open connection. -/
structure World where
  trust : Trust
  policyAt : ℕ → Availability
  dialAt : ℕ → String → Meeting
  asked : ℕ := 0
  dialled : ℕ := 0
  mxHost : String := ""
  policy : Option Policy := none
  link : Option Link := none

variable (S : Setup)

/-- `dialSMTP` in this world. -/
def World.dialSMTP (w : World) (host : String) : Except String Dane.Channel :=
  ((w.dialAt w.dialled host).dane.dialSMTP S.T S.C S.dane (w.dialAt w.dialled host).dial host).1

/-- The host of the hop that `deliverToDomain` makes of an MX host. -/
def World.hop (w : World) (hop : NextHop) : Option String :=
  dialHop w.trust (w.dialAt w.dialled (trimSuffix w.mxHost ".")) hop

def World.track (w : World) : (q : NetQuery) → q.Reply → World
  | .shouldEnforceTLS _ mxHost, _ =>
    { w with asked := w.asked + 1, mxHost, policy := (w.policyAt w.asked).inForce }
  | .dialSMTP host, _ =>
    { w with
      dialled := w.dialled + 1
      link :=
        match w.dialSMTP S host with
        | .error _ => none
        | .ok channel =>
          some ⟨host, channel ≠ .clear, (w.dialAt w.dialled host).dial.rawCerts⟩ }
  | .dialNextHop hop, _ =>
    let host := trimSuffix w.mxHost "."
    { w with
      dialled := w.dialled + 1
      link :=
        match w.hop hop with
        | some _ => none
        | none => some ⟨host, hop.requireTLS, (w.dialAt w.dialled host).dial.rawCerts⟩ }
  | _, _ => w

/-- The replies this world gives; MX records are those of the list. -/
def World.Replies (mxs : List MX) (w : World) : (q : NetQuery) → q.Reply → Prop
  | .lookupMailMX _, r => r = .ok mxs
  | .shouldEnforceTLS _ mxHost, r => r = enforcement S.U (w.policyAt w.asked).returned mxHost
  | .dialSMTP host, r =>
    r = match w.dialSMTP S host with
      | .error err => some err
      | .ok _ => none
  | .dialNextHop hop, r => r = w.hop hop
  | _, _ => True

/-! ### The law -/

variable (tlsa : TLSALookupResult × Option String)

/-- What the TLSA state of a host comes to; with DANE switched off, nothing. -/
def demand : Decision :=
  if S.dane.daneEnabled then requirement tlsa else .opportunistic

/-- The certificates of the connection are matched by the records. -/
def Link.Matches (l : Link) (records : List TLSARecord) : Prop :=
  l.tls = true ∧ ∃ leaf chain, Presented S.C l.rawCerts leaf chain ∧
    Accepted S.C records leaf chain

/-- The connection satisfies every policy in force. -/
structure Satisfies (tlsa : String → TLSALookupResult × Option String) (w : World) (l : Link) :
    Prop where
  answered : demand S (tlsa l.host) ≠ .failClosed
  dane : demand S (tlsa l.host) = .mandatory → l.Matches S (tlsa l.host).1.records
  sts : S.delivery.sts = true → ∀ p, w.policy = some p → p.mode = "enforce" →
    p.lists S.U w.mxHost = true ∧ l.tls = true ∧ w.trust "" l.rawCerts l.host = true

/-- Message data is written only where the law allows it. -/
def guard (tlsa : String → TLSALookupResult × Option String) (mxs : List MX) :
    Monitor netSignature World where
  track := World.track S
  Offers := World.Replies S mxs
  Allows w
    | .write _ => ∃ l, w.link = some l ∧ Satisfies S tlsa w l
    | _ => True

/-! ### Policy states -/

/-- Both lookups of a connection find the TLSA state of the host. -/
def Meeting.Finds (m : Meeting) (host : String) : Prop :=
  (m.dane.lookupTLSA S.T m.dial.lookup m.dial.checked host 25).1 = tlsa ∧
    ((m.dane.lookupTLSA S.T m.dial.lookup m.dial.checked host 25).2.lookupTLSA S.T m.dial.relookup
      m.dial.verified host 25).1 = tlsa

/-- The world of a domain whose policy is in one of the given states, with
hosts in the given TLSA states. -/
structure World.Of (states : Availability → Prop)
    (tlsa : String → TLSALookupResult × Option String) (w : World) : Prop where
  policy : ∀ i, states (w.policyAt i)
  tlsa : ∀ i host, (w.dialAt i host).Finds S (tlsa host) host

/-- `dialSMTP` cannot connect to the host. -/
def Hopeless : Prop :=
  demand S tlsa = .failClosed ∨
    demand S tlsa = .mandatory ∧ ∀ rawCerts leaf chain, Presented S.C rawCerts leaf chain →
      ¬ Accepted S.C tlsa.1.records leaf chain

/-- The name the hop of an MX host is authenticated under. -/
def nameOfMX (host : String) : String := hostOf (joinHostPort host "25")

/-- The policies of a domain and of one of its hosts do not get in each other's
way: a host that a policy in enforce mode lists has no TLSA records in force
and is authenticated under its own name (or under none, which fails), and where
such a policy cannot be saved the host cannot be reached at all. -/
def Composes (tlsa : String → TLSALookupResult × Option String) (mxHost : String) :
    Availability → Prop
  | .absent => True
  | .known p => p.mode = "enforce" → p.lists S.U mxHost = true →
      nameOfMX (trimSuffix mxHost ".") = "" ∨
        demand S (tlsa (trimSuffix mxHost ".")) = .opportunistic ∧
          nameOfMX (trimSuffix mxHost ".") = trimSuffix mxHost "."
  | .unsaved p => p.mode = "enforce" → Hopeless S (tlsa (trimSuffix mxHost "."))

/-! ### What a connection establishes -/

section Dials

variable {S} {tlsa : TLSALookupResult × Option String} {m : Meeting} {host : String}

theorem checkDANE_eq (hf : m.Finds S tlsa host) (hdane : S.dane.daneEnabled = true) :
    (m.dane.checkDANE S.T S.dane m.dial host).2 =
        (m.dane.lookupTLSA S.T m.dial.lookup m.dial.checked host 25).2 ∧
      decisionOf (m.dane.checkDANE S.T S.dane m.dial host).1 = requirement tlsa := by
  have h₁ := hf.1
  unfold State.checkDANE
  rw [if_pos hdane]
  rcases hlookup : m.dane.lookupTLSA S.T m.dial.lookup m.dial.checked host 25 with
    ⟨⟨result, err⟩, s'⟩
  rw [hlookup] at h₁
  cases h₁
  dsimp only [requirement]
  rcases daneTLSRequirement result err with e | mandatory
  · exact ⟨rfl, rfl⟩
  · exact ⟨rfl, rfl⟩

/-- The decision of `dialSMTP` is the demand of the TLSA state. -/
theorem checkDANE_demand (hf : m.Finds S tlsa host) :
    decisionOf (m.dane.checkDANE S.T S.dane m.dial host).1 = demand S tlsa := by
  unfold demand
  by_cases hdane : S.dane.daneEnabled = true
  · rw [if_pos hdane]
    exact (checkDANE_eq hf hdane).2
  · rw [if_neg hdane, State.checkDANE, if_neg hdane]
    rfl

theorem demand_mandatory (h : demand S tlsa = .mandatory) :
    S.dane.daneEnabled = true ∧ tlsa.2 = none ∧ tlsa.1.records ≠ [] := by
  unfold demand at h
  by_cases hdane : S.dane.daneEnabled = true
  · rw [if_pos hdane] at h
    refine ⟨hdane, ?_⟩
    unfold requirement daneTLSRequirement at h
    obtain ⟨result, err⟩ := tlsa
    rcases err with - | err
    · refine ⟨rfl, fun hnil => ?_⟩
      dsimp only at h hnil
      rw [hnil] at h
      split_ifs at h <;> simp [decisionOf] at h
    · cases h
  · rw [if_neg hdane] at h
    cases h

/-- A connection that has got as far as the lookup. -/
structure Meeting.Greeted (m : Meeting) : Prop where
  dialErr : m.dial.dialErr = none
  greetingErr : m.dial.greetingErr = none
  helloErr : m.dial.helloErr = none

theorem dialSMTP_of_greeted (h : m.Greeted) :
    m.dane.dialSMTP S.T S.C S.dane m.dial host =
      match m.dane.checkDANE S.T S.dane m.dial host with
      | (.error err, s) => (.error err, s)
      | (.ok mandatory, s) => s.secure S.T S.C S.dane m.dial host mandatory := by
  rcases hcheck : m.dane.checkDANE S.T S.dane m.dial host with ⟨_ | _, s⟩ <;>
    simp only [State.dialSMTP, h.dialErr, h.greetingErr, h.helloErr, hcheck]

variable {channel : Dane.Channel} {trust : Trust}

theorem greeted_of_ok (h : (m.dane.dialSMTP S.T S.C S.dane m.dial host).1 = .ok channel) :
    m.Greeted := by
  unfold State.dialSMTP at h
  rcases h₁ : m.dial.dialErr with - | err
  · rcases h₂ : m.dial.greetingErr with - | err
    · rcases h₃ : m.dial.helloErr with - | err
      · exact ⟨h₁, h₂, h₃⟩
      · rw [h₁, h₂, h₃] at h
        cases h
    · rw [h₁, h₂] at h
      cases h
  · rw [h₁] at h
    cases h

/-- Under mandatory TLS the handshake stands and falls with the records. -/
theorem secure_mandatory_iff (hf : m.Finds S tlsa host) (hd : demand S tlsa = .mandatory)
    {s : State} (hs : s = (m.dane.lookupTLSA S.T m.dial.lookup m.dial.checked host 25).2)
    (channel : Dane.Channel) :
    (s.secure S.T S.C S.dane m.dial host true).1 = .ok channel ↔
      channel = .dane ∧ m.dial.starttlsOffered = true ∧ m.dial.handshakeErr = none ∧
        ∃ leaf chain, Presented S.C m.dial.rawCerts leaf chain ∧
          Accepted S.C tlsa.1.records leaf chain := by
  obtain ⟨-, herr, hrecords⟩ := demand_mandatory hd
  have hlookup : (s.lookupTLSA S.T m.dial.relookup m.dial.verified host 25).1 =
      (tlsa.1, none) := by
    rw [hs, hf.2, ← herr]
  have hverify : (s.verifyPeerCertificate S.T S.C S.dane.strictMode m.dial.relookup
      m.dial.verified host 25 m.dial.rawCerts).1 = none ↔ ∃ leaf chain,
        Presented S.C m.dial.rawCerts leaf chain ∧ Accepted S.C tlsa.1.records leaf chain :=
    verifyPeerCertificate_iff hlookup hrecords
  unfold State.secure
  rw [if_pos rfl, ← hverify]
  rcases m.dial.starttlsOffered with - | -
  · simp
  · rcases m.dial.handshakeErr with - | err
    · rcases s.verifyPeerCertificate S.T S.C S.dane.strictMode m.dial.relookup m.dial.verified host
        25 m.dial.rawCerts with ⟨- | err, s'⟩
      · simpa using eq_comm
      · simp
    · simp

/-- What `dialSMTP` has established when it succeeds. -/
theorem dialSMTP_ok (hf : m.Finds S tlsa host)
    (h : (m.dane.dialSMTP S.T S.C S.dane m.dial host).1 = .ok channel) :
    demand S tlsa ≠ .failClosed ∧
      (demand S tlsa = .mandatory → channel = .dane ∧
        ∃ leaf chain, Presented S.C m.dial.rawCerts leaf chain ∧
          Accepted S.C tlsa.1.records leaf chain) := by
  have hdemand := checkDANE_demand hf
  rw [dialSMTP_of_greeted (greeted_of_ok h)] at h
  rcases hcheck : m.dane.checkDANE S.T S.dane m.dial host with ⟨err | mandatory, s'⟩
  · rw [hcheck] at h
    cases h
  · rw [hcheck] at h hdemand
    refine ⟨?_, fun hd => ?_⟩
    · rw [← hdemand]
      cases mandatory <;> exact nofun
    · rw [hd] at hdemand
      have hmandatory : mandatory = true := by
        cases mandatory with
        | true => rfl
        | false => cases hdemand
      subst hmandatory
      have hs := (checkDANE_eq hf (demand_mandatory hd).1).1
      rw [hcheck] at hs
      obtain ⟨hc, -, -, haccepted⟩ := (secure_mandatory_iff hf hd hs channel).mp h
      exact ⟨hc, haccepted⟩

/-- What `dialNextHop` has established when it succeeds. -/
theorem dialHop_ok {hop : NextHop} (htls : hop.requireTLS = true) (h : dialHop trust m hop = none) :
    hopName hop ≠ "" ∧ trust hop.caFile m.dial.rawCerts (hopName hop) = true := by
  have hsecure : secureHop trust m hop = none := by
    unfold dialHop at h
    rw [if_pos htls] at h
    split at h
    · cases h
    · split at h
      · cases h
      · split at h
        · cases h
        · split at h
          · cases h
          · next hsecure => exact hsecure
  unfold secureHop at hsecure
  split at hsecure
  · cases hsecure
  · split at hsecure
    · cases hsecure
    · split at hsecure
      · cases hsecure
      · split at hsecure
        · cases hsecure
        · next hname =>
          split at hsecure
          · cases hsecure
          · split at hsecure
            · next htrust => exact ⟨hname, htrust⟩
            · cases hsecure

theorem dialHop_of_secure {hop : NextHop} (h : m.Greeted) (htls : hop.requireTLS = true)
    (hsecure : secureHop trust m hop = none) (huser : hop.username = "") :
    dialHop trust m hop = none := by
  simp [dialHop, h.dialErr, h.greetingErr, h.helloErr, htls, hsecure, authHop, huser]

end Dials

/-! ### Transactions -/

/-- The questions of an SMTP transaction. -/
def Transactional : NetQuery → Prop
  | .mail _ | .rcpt _ | .data | .write _ | .closeData | .now => True
  | _ => False

section Transaction

variable {σ : Type} {M : Monitor netSignature σ} {l : σ} {sender : String}
  {recipients : List String} {message : List UInt8}
  (hallow : ∀ q, Transactional q → (∀ message, q ≠ .write message) → M.Allows l q)
  (hwrite : recipients ≠ [] → M.Allows l (.write message))
  (hstill : ∀ q r, Transactional q → M.track l q r = l)

include hallow hstill

theorem rcptAll_still (rcpts : List String) :
    Spec M (rcptAll rcpts) l fun out l' => l' = l ∧ out.2 ≤ rcpts.length := by
  induction rcpts with
  | nil => exact ⟨rfl, le_rfl⟩
  | cons rcpt rest ih =>
    refine spec_ask_still (hallow _ trivial nofun) (hstill _ · trivial) fun r => ?_
    refine ih.bind fun out l' h => ⟨h.1, ?_⟩
    have hle : out.2 ≤ rest.length := h.2
    dsimp only [length_cons]
    split <;> omega

include hwrite

/-- A transaction leaves a monitor as it is that does not react to its questions. -/
theorem smtpTransaction_still (host : String) :
    Spec M (smtpTransaction host sender recipients message) l fun _ l' => l' = l := by
  refine spec_ask_still (hallow _ trivial nofun) (hstill _ · trivial)
    fun (err : Option String) => ?_
  rcases err with - | err
  swap; · exact rfl
  refine (rcptAll_still hallow hstill recipients).bind fun out l₁ hl => ?_
  obtain ⟨outcomes, accepted⟩ := out
  obtain ⟨rfl, hle⟩ := hl
  dsimp only
  split
  · exact rfl
  · next hpos =>
    have hne : recipients ≠ [] := by
      rintro rfl
      exact hpos (Nat.le_zero.mp hle)
    refine spec_ask_still (hallow _ trivial nofun) (hstill _ · trivial)
      fun (err : Option String) => ?_
    rcases err with - | err
    swap; · exact rfl
    refine spec_ask_still (hwrite hne) (hstill _ · trivial) fun (err : Option String) => ?_
    rcases err with - | err
    swap; · exact rfl
    refine spec_ask_still (hallow _ trivial nofun) (hstill _ · trivial)
      fun (err : Option String) => ?_
    rcases err with - | err
    swap; · exact rfl
    exact spec_ask_still (hallow _ trivial nofun) (hstill _ · trivial) fun _ => rfl

end Transaction

/-! ### The law holds where policies compose -/

section Law

variable {S} {tlsa : String → TLSALookupResult × Option String} {mxs : List MX} {w : World}
  {sender domain : String} {recipients : List String} {message : List UInt8}

theorem smtpTransaction_guard (host : String)
    (hs : recipients ≠ [] → ∃ l, w.link = some l ∧ Satisfies S tlsa w l) :
    Spec (guard S tlsa mxs) (smtpTransaction host sender recipients message) w
      fun _ w' => w' = w := by
  refine smtpTransaction_still (fun q hq hw => ?_) hs (fun q r hq => ?_) host
  · cases q <;> first | exact hq.elim | trivial | exact absurd rfl (hw _)
  · cases q <;> first | exact hq.elim | rfl

/-- What the questions of a delivery leave alone. -/
structure World.Same (w w' : World) : Prop where
  trust : w'.trust = w.trust
  policyAt : w'.policyAt = w.policyAt
  dialAt : w'.dialAt = w.dialAt

theorem World.same_track (w : World) (q : NetQuery) (r : q.Reply) : w.Same (w.track S q r) := by
  cases q <;> exact ⟨rfl, rfl, rfl⟩

theorem Spec.same {β : Type} {p : Net β} {Q : β → World → Prop}
    (h : Spec (guard S tlsa mxs) p w Q) :
    Spec (guard S tlsa mxs) p w fun b w' => Q b w' ∧ w.Same w' :=
  h.along World.Same (fun _ => ⟨rfl, rfl, rfl⟩)
    (fun h h' => ⟨h'.1.trans h.1, h'.2.trans h.2, h'.3.trans h.3⟩) World.same_track

variable {states : Availability → Prop}

theorem World.Of.same {w' : World} (h : w.Of S states tlsa) (hs : w.Same w') :
    w'.Of S states tlsa :=
  ⟨hs.policyAt ▸ h.policy, hs.dialAt ▸ h.tlsa⟩

/-- A connection by `dialSMTP`, where no policy in enforce mode is in force or
none can be made. -/
theorem deliverToMX_guard (hw : w.Of S states tlsa) (mxHost : String)
    (hp : recipients ≠ [] → (S.delivery.sts = true → ∀ p, w.policy = some p → p.mode ≠
      "enforce") ∨ Hopeless S (tlsa (trimSuffix mxHost "."))) :
    Spec (guard S tlsa mxs) (deliverToMX mxHost sender recipients message) w
      fun _ _ => True := by
  refine ⟨trivial, fun (err : Option String) herr => ?_⟩
  have hf := hw.tlsa w.dialled (trimSuffix mxHost ".")
  rcases hdial : w.dialSMTP S (trimSuffix mxHost ".") with e | channel
  · have : err = some e := by
      rw [show err = _ from herr, hdial]
    subst this
    exact trivial
  · have : err = none := by
      rw [show err = _ from herr, hdial]
    subst this
    obtain ⟨hanswered, hmandatory⟩ := dialSMTP_ok hf hdial
    have hlink : (w.track S (.dialSMTP (trimSuffix mxHost ".")) none).link =
        some ⟨trimSuffix mxHost ".", channel ≠ .clear,
          (w.dialAt w.dialled (trimSuffix mxHost ".")).dial.rawCerts⟩ := by
      simp only [World.track, hdial]
    refine (smtpTransaction_guard _ fun hne => ⟨_, hlink, hanswered, fun hd => ?_,
      fun hsts p hpol henforce => ?_⟩).mono fun _ _ _ => trivial
    · obtain ⟨rfl, haccepted⟩ := hmandatory hd
      exact ⟨rfl, haccepted⟩
    · rcases hp hne with hp | hclosed | ⟨hd, hnone⟩
      · exact absurd henforce (hp hsts p hpol)
      · exact absurd hclosed hanswered
      · obtain ⟨-, leaf, chain, hpresented, haccepted⟩ := hmandatory hd
        exact absurd haccepted (hnone _ leaf chain hpresented)

/-- The hop of an MX host that a policy in enforce mode lists. -/
def stsHop (mxHost : String) : NextHop :=
  { address := joinHostPort (trimSuffix mxHost ".") "25", requireTLS := true, reportType := "sts" }

theorem deliverHop_guard
    (hc : recipients ≠ [] → nameOfMX (trimSuffix w.mxHost ".") = "" ∨
      demand S (tlsa (trimSuffix w.mxHost ".")) = .opportunistic ∧
        nameOfMX (trimSuffix w.mxHost ".") = trimSuffix w.mxHost ".")
    (hlists : ∀ p, w.policy = some p → p.mode = "enforce" → p.lists S.U w.mxHost = true)
    (last : Option String) :
    Spec (guard S tlsa mxs) (deliverRoute sender recipients message last [stsHop w.mxHost]) w
      fun _ _ => True := by
  refine ⟨trivial, fun (err : Option String) herr => ?_⟩
  have herr' : err = w.hop (stsHop w.mxHost) := herr
  rcases err with - | err
  swap; · exact trivial
  obtain ⟨hne, htrust⟩ := dialHop_ok rfl herr'.symm
  have hn : hopName (stsHop w.mxHost) = nameOfMX (trimSuffix w.mxHost ".") := rfl
  rw [hn] at hne htrust
  have hlink : (w.track S (.dialNextHop (stsHop w.mxHost)) none).link =
      some ⟨trimSuffix w.mxHost ".", true,
        (w.dialAt w.dialled (trimSuffix w.mxHost ".")).dial.rawCerts⟩ := by
    simp only [World.track, ← herr']
    rfl
  refine (smtpTransaction_guard _ fun hrcpt => ⟨_, hlink, ?_⟩).bind fun out _ _ => ?_
  · obtain ⟨hopen, hname⟩ := (hc hrcpt).resolve_left hne
    rw [hname] at htrust
    refine ⟨?_, fun hd => ?_, fun _ p hpol henforce => ⟨hlists p hpol henforce, rfl, htrust⟩⟩
    · rw [hopen]
      exact nofun
    · rw [hopen] at hd
      cases hd
  · dsimp only
    split
    · exact trivial
    · exact trivial

/-- One attempt, after MTA-STS was asked about the host. -/
theorem attemptMX_guard (hw : w.Of S states tlsa) (mx : MX) {a : Availability}
    (hmx : w.mxHost = mx.host) (hpol : w.policy = a.inForce)
    (hc : recipients ≠ [] → Composes S tlsa mx.host a) :
    Spec (guard S tlsa mxs)
      (attemptMX mx sender recipients message (enforcement S.U a.returned mx.host)) w
      fun _ _ => True := by
  rcases a with - | p | p
  · exact (deliverToMX_guard hw mx.host fun _ =>
      .inl fun _ p hp => by rw [hpol] at hp; cases hp).bind fun _ _ _ => trivial
  · -- a policy `GetPolicy` returns
    by_cases henforce : p.mode = "enforce"
    · by_cases hlists : p.lists S.U mx.host = true
      · have henf : enforcement S.U (Availability.known p).returned mx.host = .ok true := by
          simp only [enforcement, Availability.returned, if_pos henforce, if_pos hlists]
        rw [henf]
        obtain ⟨host, pref⟩ := mx
        dsimp only at hmx hc hlists ⊢
        subst hmx
        refine (deliverHop_guard (fun hne => hc hne henforce hlists) (fun p' hp' _ => ?_) none).bind
          fun _ _ _ => trivial
        rw [hpol] at hp'
        cases hp'
        exact hlists
      · have henf : ∃ err,
            enforcement S.U (Availability.known p).returned mx.host = .error err := by
          simp only [enforcement, Availability.returned, if_pos henforce, if_neg hlists]
          exact ⟨_, rfl⟩
        obtain ⟨err, henf⟩ := henf
        rw [henf]
        exact trivial
    · have henf : enforcement S.U (Availability.known p).returned mx.host = .ok false := by
        simp only [enforcement, Availability.returned, if_neg henforce]
      rw [henf]
      refine (deliverToMX_guard hw mx.host fun _ => .inl fun _ p' hp' => ?_).bind
        fun _ _ _ => trivial
      rw [hpol] at hp'
      cases hp'
      exact henforce
  · -- one that could not be saved
    refine (deliverToMX_guard hw mx.host fun hne => ?_).bind fun _ _ _ => trivial
    by_cases henforce : p.mode = "enforce"
    · exact .inr (hc hne henforce)
    · refine .inl fun _ p' hp' => ?_
      rw [hpol] at hp'
      cases hp'
      exact henforce

theorem tryMXs_guard {l : List MX}
    (hc : recipients ≠ [] → S.delivery.sts = true → ∀ a, states a → ∀ mx ∈ l,
      Composes S tlsa mx.host a) (hw : w.Of S states tlsa) (last : Option String) :
    Spec (guard S tlsa mxs) (tryMXs S.delivery domain sender recipients message last l) w
      fun _ _ => True := by
  induction l generalizing w last with
  | nil => exact trivial
  | cons mx l ih =>
    have hl : recipients ≠ [] → S.delivery.sts = true → ∀ a, states a → ∀ mx' ∈ l,
        Composes S tlsa mx'.host a :=
      fun hne hsts a ha mx' hmx' => hc hne hsts a ha mx' (mem_cons_of_mem _ hmx')
    have hattempt : ∀ {enforce : Except String Bool} {w₁ : World}, w.Same w₁ →
        Spec (guard S tlsa mxs) (attemptMX mx sender recipients message enforce) w₁
          (fun _ _ => True) →
        Spec (guard S tlsa mxs) (attemptMX mx sender recipients message enforce >>= fun out =>
          if out.2 = none ∧ out.1.any (·.success) then pure (out.1, none)
          else if out.1.any (·.isPermanent) then pure out
          else tryMXs S.delivery domain sender recipients message out.2 l) w₁
          fun _ _ => True := by
      intro enforce w₁ hsame hspec
      refine (Spec.same hspec).bind fun out w₂ hw₂ => ?_
      obtain ⟨result, err⟩ := out
      dsimp only
      split
      · exact trivial
      · split
        · exact trivial
        · exact ih hl ((hw.same hsame).same hw₂.2) err
    by_cases hsts : S.delivery.sts = true
    · rw [tryMXs, if_pos hsts]
      refine ⟨trivial, fun (r : Except String Bool) hr => ?_⟩
      have hsame : w.Same (w.track S (.shouldEnforceTLS domain mx.host) r) := w.same_track _ _
      have hr' : r = enforcement S.U (w.policyAt w.asked).returned mx.host := hr
      rw [hr'] at hsame ⊢
      refine hattempt hsame ?_
      exact attemptMX_guard (hw.same hsame) mx rfl rfl fun hne =>
        hc hne hsts _ (hw.policy w.asked) mx mem_cons_self
    · rw [tryMXs, if_neg hsts]
      refine hattempt ⟨rfl, rfl, rfl⟩ ?_
      exact (deliverToMX_guard hw mx.host fun _ => .inl fun h => absurd h hsts).bind
        fun _ _ _ => trivial

end Law

/-! ### A network that gets past the policies -/

section Adversary

variable {S} {tlsa : String → TLSALookupResult × Option String} {mxs : List MX} {w : World}
  {sender domain : String} {recipients : List String} {message : List UInt8}

/-- The meeting with a server that answers, with STARTTLS or without. -/
def Meeting.answering (m : Meeting) (starttls : Bool) (rawCerts : List (List UInt8)) : Meeting :=
  { m with
    dial :=
      { m.dial with
        dialErr := none
        greetingErr := none
        helloErr := none
        starttlsOffered := starttls
        handshakeErr := none
        rawCerts }
    keyPairErr := none }

/-- The meeting with a server that refuses the connection. -/
def Meeting.refusing (m : Meeting) : Meeting :=
  { m with dial := { m.dial with dialErr := some "connection refused" } }

/-- Only one host answers. -/
def onlyAt (a : Availability) (trust : Trust) (host : String) (m : Meeting)
    (others : String → Meeting) : World where
  trust := trust
  policyAt _ := a
  dialAt _ h := if h = host then m else (others h).refusing

variable {states : Availability → Prop} {a : Availability} {host : String} {m : Meeting}
  {others : String → Meeting} {Q : DeliveryResult × Option String → World → Prop}
  {last : Option String} {mx : MX} {l : List MX} {p : Policy}

theorem onlyAt_of (ha : states a) (trust : Trust) (hm : m.Finds S (tlsa host) host)
    (ho : ∀ h, (others h).Finds S (tlsa h) h) :
    (onlyAt a trust host m others).Of S states tlsa where
  policy _ := ha
  tlsa i h := by
    dsimp only [onlyAt]
    split
    · next heq => exact heq ▸ hm
    · exact ho h

/-- Where the server accepts every recipient, a transaction writes. -/
theorem rcptAll_accepted {rcpts : List String} {Q : List RecipientResult × ℕ → World → Prop}
    (h : Spec (guard S tlsa mxs) (rcptAll rcpts) w Q) :
    ∃ outcomes, Q (outcomes, rcpts.length) w := by
  induction rcpts generalizing Q with
  | nil => exact ⟨[], h⟩
  | cons rcpt rest ih =>
    obtain ⟨outcomes, hq⟩ := ih (spec_bind.mp (h.2 none trivial))
    exact ⟨_, hq⟩

theorem satisfies_of_smtpTransaction (hne : recipients ≠ [])
    (h : Spec (guard S tlsa mxs) (smtpTransaction host sender recipients message) w Q) :
    ∃ l, w.link = some l ∧ Satisfies S tlsa w l := by
  obtain ⟨outcomes, hrcpt⟩ := rcptAll_accepted (spec_bind.mp (h.2 none trivial))
  dsimp only at hrcpt
  rw [if_neg (mt length_eq_zero_iff.mp hne)] at hrcpt
  exact (hrcpt.2 none trivial).1

theorem satisfies_of_deliverToMX {mxHost : String} (hne : recipients ≠ []) {channel : Dane.Channel}
    (hdial : w.dialSMTP S (trimSuffix mxHost ".") = .ok channel)
    (h : Spec (guard S tlsa mxs) (deliverToMX mxHost sender recipients message) w Q) :
    Satisfies S tlsa w ⟨trimSuffix mxHost ".", channel ≠ .clear,
      (w.dialAt w.dialled (trimSuffix mxHost ".")).dial.rawCerts⟩ := by
  have hreply : (guard S tlsa mxs).Offers w (.dialSMTP (trimSuffix mxHost ".")) none := by
    show none = _
    rw [hdial]
  obtain ⟨l, hlink, hs⟩ := satisfies_of_smtpTransaction hne (h.2 none hreply)
  have hopened : ((guard S tlsa mxs).track w (.dialSMTP (trimSuffix mxHost ".")) none).link =
      some ⟨trimSuffix mxHost ".", channel ≠ .clear,
        (w.dialAt w.dialled (trimSuffix mxHost ".")).dial.rawCerts⟩ := by
    simp only [guard, World.track, hdial]
  rw [hopened] at hlink
  cases hlink
  exact ⟨hs.answered, hs.dane, hs.sts⟩

theorem satisfies_of_deliverHop (hne : recipients ≠ []) (hhop : w.hop (stsHop w.mxHost) = none)
    (h : Spec (guard S tlsa mxs) (deliverRoute sender recipients message last [stsHop w.mxHost]) w
      Q) :
    Satisfies S tlsa w ⟨trimSuffix w.mxHost ".", true,
      (w.dialAt w.dialled (trimSuffix w.mxHost ".")).dial.rawCerts⟩ := by
  obtain ⟨l, hlink, hs⟩ :=
    satisfies_of_smtpTransaction hne (spec_bind.mp (h.2 none hhop.symm))
  have hopened : ((guard S tlsa mxs).track w (.dialNextHop (stsHop w.mxHost)) none).link =
      some ⟨trimSuffix w.mxHost ".", true,
        (w.dialAt w.dialled (trimSuffix w.mxHost ".")).dial.rawCerts⟩ := by
    simp only [guard, World.track, hhop]
    rfl
  rw [hopened] at hlink
  cases hlink
  exact ⟨hs.answered, hs.dane, hs.sts⟩

variable {Q : Option DeliveryResult × Option String → World → Prop}

/-- An attempt at a host that refuses connections leads on to the next. -/
theorem attemptMX_refused {enforce : Except String Bool} (hmx : w.mxHost = mx.host)
    (hrefused : ∃ m, w.dialAt w.dialled (trimSuffix mx.host ".") = Meeting.refusing m)
    (h : Spec (guard S tlsa mxs) (attemptMX mx sender recipients message enforce) w Q) :
    ∃ w' result err, w.Same w' ∧ Q (result, some err) w' ∧ result.any (·.isPermanent) = false := by
  obtain ⟨m, hm⟩ := hrefused
  rcases enforce with err | - | -
  · exact ⟨w, none, err, ⟨rfl, rfl, rfl⟩, h, rfl⟩
  · have hdial :
        w.dialSMTP S (trimSuffix mx.host ".") = .error "dial failed: connection refused" := by
      rw [World.dialSMTP, hm]
      rfl
    have hreply : (guard S tlsa mxs).Offers w (.dialSMTP (trimSuffix mx.host "."))
        (some "dial failed: connection refused") := by
      show _ = _
      rw [hdial]
    exact ⟨w.track S (.dialSMTP (trimSuffix mx.host ".")) (some "dial failed: connection refused"),
      some _, _, w.same_track _ _, h.2 _ hreply, rfl⟩
  · have hhop : w.hop (stsHop mx.host) = some "connection refused" := by
      rw [World.hop, hmx, hm]
      rfl
    exact ⟨w.track S (.dialNextHop (stsHop mx.host)) (some "connection refused"), some _, _,
      w.same_track _ _, h.2 _ hhop.symm, rfl⟩

/-- Where one host alone answers, the loop comes to an attempt at it. -/
theorem tryMXs_reaches {trust : Trust} (hsts : S.delivery.sts = true)
    (hmem : ∃ mx ∈ l, trimSuffix mx.host "." = host) (hw : (onlyAt a trust host m others).Same w)
    (h : Spec (guard S tlsa mxs) (tryMXs S.delivery domain sender recipients message last l) w Q) :
    ∃ mx w' Q', trimSuffix mx.host "." = host ∧ (onlyAt a trust host m others).Same w' ∧
      w'.mxHost = mx.host ∧ w'.policy = a.inForce ∧
      Spec (guard S tlsa mxs)
        (attemptMX mx sender recipients message (enforcement S.U a.returned mx.host)) w' Q' := by
  induction l generalizing w last with
  | nil => simp at hmem
  | cons mx l ih =>
    rw [tryMXs, if_pos hsts] at h
    have hpolicy : w.policyAt w.asked = a := by rw [hw.policyAt]; rfl
    have hreply : (guard S tlsa mxs).Offers w (.shouldEnforceTLS domain mx.host)
        (enforcement S.U a.returned mx.host) := by
      show _ = _
      rw [hpolicy]
    have hattempt := (spec_bind (p := attemptMX mx sender recipients message
      (enforcement S.U a.returned mx.host))).mp (h.2 _ hreply)
    have hsame : (onlyAt a trust host m others).Same
        ((guard S tlsa mxs).track w (.shouldEnforceTLS domain mx.host)
          (enforcement S.U a.returned mx.host)) := ⟨hw.trust, hw.policyAt, hw.dialAt⟩
    by_cases hmx : trimSuffix mx.host "." = host
    · refine ⟨mx, _, _, hmx, hsame, rfl, ?_, hattempt⟩
      show (w.policyAt w.asked).inForce = _
      rw [hpolicy]
    · obtain ⟨w', result, err, hw', hnext, hpermanent⟩ := attemptMX_refused rfl
        ⟨others (trimSuffix mx.host "."), by rw [hsame.dialAt]; exact if_neg hmx⟩ hattempt
      have hl : ∃ mx' ∈ l, trimSuffix mx'.host "." = host := by
        obtain ⟨mx', hmem', heq⟩ := hmem
        rcases mem_cons.mp hmem' with rfl | hmem'
        · exact absurd heq hmx
        · exact ⟨mx', hmem', heq⟩
      dsimp only at hnext
      rw [if_neg (by simp), if_neg (by simp [hpermanent])] at hnext
      exact ih hl ⟨hw'.trust.trans hsame.trust, hw'.policyAt.trans hsame.policyAt,
        hw'.dialAt.trans hsame.dialAt⟩ hnext

/-- A host that is not hopeless can be reached by `dialSMTP`. -/
theorem dialSMTP_reaches {tlsa : TLSALookupResult × Option String} (hf : m.Finds S tlsa host)
    (h : ¬ Hopeless S tlsa) : ∃ starttls rawCerts channel,
      ((m.answering starttls rawCerts).dane.dialSMTP S.T S.C S.dane
        (m.answering starttls rawCerts).dial host).1 = .ok channel := by
  have hreach : ∀ starttls rawCerts, (m.answering starttls rawCerts).Finds S tlsa host ∧
      (m.answering starttls rawCerts).Greeted := fun _ _ => ⟨hf, rfl, rfl, rfl⟩
  rcases hd : demand S tlsa with - | - | -
  · exact absurd (.inl hd) h
  · -- mandatory: the server presents certificates that the records accept
    have hcerts : ∃ rawCerts leaf chain, Presented S.C rawCerts leaf chain ∧
        Accepted S.C tlsa.1.records leaf chain := by
      by_contra hnone
      push Not at hnone
      exact h (.inr ⟨hd, hnone⟩)
    obtain ⟨rawCerts, haccepted⟩ := hcerts
    obtain ⟨hf', hgreeted⟩ := hreach true rawCerts
    have hcheck := checkDANE_eq hf' (demand_mandatory hd).1
    have hdemand := checkDANE_demand hf'
    refine ⟨true, rawCerts, .dane, ?_⟩
    rw [dialSMTP_of_greeted hgreeted]
    rcases hc : (m.answering true rawCerts).dane.checkDANE S.T S.dane
      (m.answering true rawCerts).dial host with ⟨err | mandatory, s'⟩
    · rw [hc, hd] at hdemand
      cases hdemand
    · rw [hc, hd] at hdemand
      rw [hc] at hcheck
      cases mandatory with
      | false => cases hdemand
      | true => exact (secure_mandatory_iff hf' hd hcheck.1 _).mpr ⟨rfl, rfl, rfl, haccepted⟩
  · obtain ⟨hf', hgreeted⟩ := hreach false []
    have hdemand := checkDANE_demand hf'
    refine ⟨false, [], .clear, ?_⟩
    rw [dialSMTP_of_greeted hgreeted]
    rcases hc : (m.answering false []).dane.checkDANE S.T S.dane (m.answering false []).dial
      host with ⟨err | mandatory, s'⟩
    · rw [hc, hd] at hdemand
      cases hdemand
    · rw [hc, hd] at hdemand
      cases mandatory with
      | false => rfl
      | true => cases hdemand

theorem lists_congr {U : CaseTables} {a b : String} (h : trimSuffix a "." = trimSuffix b ".") :
    p.lists U a = p.lists U b := by
  refine congrArg p.mx.any (funext fun pattern => ?_)
  simp only [matchesMXPattern, h]

/-- A policy that is known, where certificates are trusted for the name of the
hop and no record is known to accept them. -/
theorem composes_known {mx' : MX} (hne : recipients ≠ []) (hsts : S.delivery.sts = true)
    (hname : nameOfMX (trimSuffix mx.host ".") ≠ "") (henforce : p.mode = "enforce")
    (hlists : p.lists S.U mx.host = true)
    (hhost : trimSuffix mx'.host "." = trimSuffix mx.host ".")
    (hsame : (onlyAt (.known p) (fun _ _ n => n =
      nameOfMX (trimSuffix mx.host ".")) (trimSuffix mx.host ".") (m.answering true [])
      others).Same w) (hmx : w.mxHost = mx'.host) (hpol : w.policy = some p)
    (h : Spec (guard S tlsa mxs) (attemptMX mx' sender recipients message
      (enforcement S.U (Availability.known p).returned mx'.host)) w Q) :
    demand S (tlsa (trimSuffix mx.host ".")) = .opportunistic ∧
      nameOfMX (trimSuffix mx.host ".") = trimSuffix mx.host "." := by
  have henf : enforcement S.U (Availability.known p).returned mx'.host = .ok true := by
    rw [← lists_congr hhost] at hlists
    simp only [enforcement, Availability.returned, if_pos henforce, if_pos hlists]
  have hdial : w.dialAt w.dialled (trimSuffix w.mxHost ".") = m.answering true [] := by
    rw [hmx, hhost, hsame.dialAt]
    exact if_pos rfl
  have hhop : w.hop (stsHop w.mxHost) = none := by
    have hn : hopName (stsHop w.mxHost) = nameOfMX (trimSuffix mx.host ".") := by
      rw [← hhost, ← hmx]
      rfl
    have hsecure : secureHop (fun _ _ n => n = nameOfMX (trimSuffix mx.host "."))
        (m.answering true []) (stsHop w.mxHost) = none := by
      simp only [secureHop, hn]
      simp [Meeting.answering, stsHop, hname]
    rw [World.hop, hdial, hsame.trust]
    dsimp only [onlyAt]
    exact dialHop_of_secure ⟨rfl, rfl, rfl⟩ rfl hsecure rfl
  rw [henf] at h
  have hs := satisfies_of_deliverHop hne hhop (by
    rw [hmx]
    exact spec_bind.mp h)
  rw [hdial, hmx, hhost] at hs
  constructor
  · rcases hd : demand S (tlsa (trimSuffix mx.host ".")) with - | - | -
    · exact absurd hd hs.answered
    · obtain ⟨-, leaf, chain, ⟨raw, rest, hnil, -⟩, -⟩ := hs.dane hd
      cases hnil
    · rfl
  · obtain ⟨-, -, htrust⟩ := hs.sts hsts p hpol henforce
    rw [hsame.trust] at htrust
    simp only [onlyAt, decide_eq_true_eq] at htrust
    exact htrust.symm

/-- A law that holds in every world says how the policies compose. -/
theorem composes_of_guard (hfind : ∀ host, ∃ m : Meeting, m.Finds S (tlsa host) host)
    (hne : recipients ≠ []) (hsts : S.delivery.sts = true)
    (h : ∀ w : World, w.Of S states tlsa → Spec (guard S tlsa mxs)
      (tryMXs S.delivery domain sender recipients message none l) w fun _ _ => True)
    (ha : states a) (hmx : mx ∈ l) : Composes S tlsa mx.host a := by
  choose others hothers using hfind
  have hreach := fun (trust : Trust) (starttls : Bool) (rawCerts : List (List UInt8)) =>
    tryMXs_reaches hsts ⟨mx, hmx, rfl⟩ ⟨rfl, rfl, rfl⟩ (h _ (onlyAt_of ha trust
      (m := (others (trimSuffix mx.host ".")).answering starttls rawCerts) (hothers _) hothers))
  rcases a with - | p | p
  · trivial
  · intro henforce hlists
    by_cases hname : nameOfMX (trimSuffix mx.host ".") = ""
    · exact .inl hname
    · obtain ⟨mx', w, Q, hhost, hsame, hmx', hpol, hspec⟩ :=
        hreach (fun _ _ n => n = nameOfMX (trimSuffix mx.host ".")) true []
      exact .inr (composes_known hne hsts hname henforce hlists hhost hsame hmx' hpol hspec)
  · -- nothing is trusted, and a host that can be reached takes the message anyway
    intro henforce
    by_contra hhopeless
    obtain ⟨starttls, rawCerts, channel, hok⟩ := dialSMTP_reaches (hothers _) hhopeless
    obtain ⟨mx', w, Q, hhost, hsame, hmx', hpol, hspec⟩ :=
      hreach (fun _ _ _ => false) starttls rawCerts
    have hdial : w.dialSMTP S (trimSuffix mx'.host ".") = .ok channel := by
      rw [← hok, World.dialSMTP, hhost, hsame.dialAt]
      simp only [onlyAt, if_true]
    have hs := satisfies_of_deliverToMX hne hdial (spec_bind.mp hspec)
    obtain ⟨-, -, htrust⟩ := hs.sts hsts p hpol henforce
    rw [hsame.trust] at htrust
    cases htrust

end Adversary

/-! ### When policies compose -/

theorem bubble_perm (n : ℕ) (l : List MX) : (bubble n l).Perm l := by
  fun_induction bubble n l with
  | case1 n a b rest _ ih => exact (ih.cons b).trans (.swap a b rest)
  | case2 n a b rest _ ih => exact ih.cons a
  | case3 => exact .refl _

theorem sortMXRecords_perm (mxs : List MX) : (sortMXRecords mxs).Perm mxs := by
  have hfold : ∀ (is : List ℕ) (l : List MX), l.Perm mxs →
      (is.foldl (fun l i => bubble (mxs.length - i - 1) l) l).Perm mxs := by
    intro is
    induction is with
    | nil => exact fun _ hl => hl
    | cons i is ih => exact fun l hl => ih _ ((bubble_perm _ l).trans hl)
  exact hfold _ mxs (.refl _)

/-- **Message data reaches an MX host only over connections that satisfy every
policy in force, whatever the network does, exactly if the policies of the
domain and of its hosts compose**: the way to dial that MTA-STS asks for looks
up no TLSA records. -/
theorem policies_compose_iff (S : Setup) (states : Availability → Prop)
    (tlsa : String → TLSALookupResult × Option String) (mxs : List MX) (domain sender : String)
    (recipients : List String) (message : List UInt8)
    (hroute : selectRoute S.U S.delivery domain sender = [])
    (hfind : ∀ host, ∃ m : Meeting, m.Finds S (tlsa host) host) :
    (∀ w : World, w.Of S states tlsa → Spec (guard S tlsa mxs)
      (deliverToDomain S.U S.delivery domain sender recipients message) w fun _ _ => True) ↔
    (recipients ≠ [] → S.delivery.sts = true → ∀ a, states a → ∀ mx ∈ mxs,
      Composes S tlsa mx.host a) := by
  have hmem : ∀ mx, mx ∈ sortMXRecords mxs ↔ mx ∈ mxs := fun mx => (sortMXRecords_perm mxs).mem_iff
  have hloop : ∀ w : World, Spec (guard S tlsa mxs)
      (deliverToDomain S.U S.delivery domain sender recipients message) w (fun _ _ => True) ↔
      Spec (guard S tlsa mxs) (tryMXs S.delivery domain sender recipients message none
        (sortMXRecords mxs)) w fun _ _ => True := by
    intro w
    rw [deliverToDomain, hroute]
    constructor
    · exact fun h => h.2 _ rfl
    · refine fun h => ⟨trivial, fun (r : Except DNSFailure (List MX)) hr => ?_⟩
      rw [show r = .ok mxs from hr]
      exact h
  constructor
  · intro h hne hsts a ha mx hmx
    exact composes_of_guard hfind hne hsts (fun w hw => (hloop w).mp (h w hw)) ha
      ((hmem mx).mpr hmx)
  · intro hc w hw
    refine (hloop w).mpr (tryMXs_guard (fun hne hsts a ha mx hmx => ?_) hw none)
    exact hc hne hsts a ha mx ((hmem mx).mp hmx)

/-! ### A policy in enforce mode before a host with records -/

def anchorSetup : Setup where
  U := asciiTables
  T := plainTables
  C := bareCrypto
  dane := {}
  delivery := { sts := true }

/-- The certificate `[0]`, which the record for `[1]` does not cover. -/
def strangerMeeting : Meeting where
  dane := {}
  dial := { anchorDial with rawCerts := [[0]] }

/-- Every host publishes the record of `anchorAnswer`. -/
def anchorTLSA (host : String) : TLSALookupResult × Option String :=
  ({ records := [{ anchorRecord with domain := host }], dnssecValid := true }, none)

theorem strangerMeeting_finds (host : String) :
    strangerMeeting.Finds anchorSetup (anchorTLSA host) host := by
  refine ⟨rfl, ?_⟩
  have hcached : (State.lookupTLSA plainTables {} anchorAnswer 0 host 25).2.validator.find 0
      (validatorKey host 25) = some (anchorTLSA host).1 :=
    ExpiringCache.Cache.find_set_self (show (0 : ℤ) ≤ 0 + 3600 * second by decide)
  exact congrArg Prod.fst (lookupTLSA_of_validator hcached)

def exampleMX : MX := { host := "mx.example.", pref := 10 }

/-- A policy that lists the host, in one of the modes. -/
def examplePolicy (mode : String) : Policy :=
  { version := "STSv1", mode, mx := ["mx.example"], maxAge := 86400 }

def exampleDelivery : Net (Option DeliveryResult × Option String) :=
  deliverToDomain anchorSetup.U anchorSetup.delivery "example" "a@b.example" ["u@example"] []

/-- The store of the system trusts the certificate. -/
def strangerWorld : World where
  trust _ _ _ := true
  policyAt _ := .known (examplePolicy "enforce")
  dialAt _ _ := strangerMeeting

/-- The same with a policy in testing mode. -/
def testingWorld : World :=
  { strangerWorld with policyAt := fun _ => .known (examplePolicy "testing") }

/-- With a policy in testing mode the records decide. -/
theorem policies_compose_testing :
    testingWorld.Of anchorSetup (· = .known (examplePolicy "testing")) anchorTLSA ∧
      Spec (guard anchorSetup anchorTLSA [exampleMX]) exampleDelivery testingWorld
        fun _ _ => True := by
  have hworld : testingWorld.Of anchorSetup (· = .known (examplePolicy "testing")) anchorTLSA :=
    ⟨fun _ => rfl, fun _ host => strangerMeeting_finds host⟩
  refine ⟨hworld, (policies_compose_iff anchorSetup _ anchorTLSA [exampleMX] "example"
    "a@b.example" ["u@example"] [] rfl fun host => ⟨_, strangerMeeting_finds host⟩).mpr ?_ _ hworld⟩
  rintro - - a rfl mx -
  exact fun henforce => absurd henforce (by decide)

/-- The records of the host demand DANE, MTA-STS is in enforce mode, and the
message is written to a server whose certificate no record covers. -/
theorem enforce_hides_records :
    strangerWorld.Of anchorSetup (· = .known (examplePolicy "enforce")) anchorTLSA ∧
      demand anchorSetup (anchorTLSA "mx.example") = .mandatory ∧
      ¬ Spec (guard anchorSetup anchorTLSA [exampleMX]) exampleDelivery strangerWorld
        fun _ _ => True := by
  refine ⟨⟨fun _ => rfl, fun _ host => strangerMeeting_finds host⟩, rfl, fun h => ?_⟩
  -- the MX records, MTA-STS, the connection, MAIL, RCPT and DATA
  obtain ⟨l, hl, hs⟩ := ((((((h.2 (.ok [exampleMX]) rfl).2 (.ok true) rfl).2 none rfl).2 none
    trivial).2 none trivial).2 none trivial).1
  cases hl
  obtain ⟨-, leaf, chain, hpresented, haccepted⟩ := hs.dane rfl
  obtain ⟨rfl, rfl⟩ := (presented_cons
    (show bareCrypto.parseCertificate [0] = .ok { raw := [0] } from rfl)).mp hpresented
  have hcovers : ∀ {cert : Certificate}, ¬ cert.raw = [1] →
      ¬ TLSARecord.Covers bareCrypto { anchorRecord with domain := "mx.example" } cert :=
    fun hraw hcovers => hraw (anchorRecord_covers.mp hcovers)
  obtain ⟨r, hr, ⟨-, hleaf⟩ | ⟨anchor, hmem, hanchor⟩⟩ := haccepted
  · rw [mem_singleton.mp hr] at hleaf
    exact hcovers (by decide) hleaf
  · rw [mem_singleton.mp hr] at hanchor
    rw [mem_singleton.mp hmem] at hanchor
    exact hcovers (by decide) hanchor.1

end TransportPolicy

end EmailService
