/-
EmailService/Dane.lean

DANE for outgoing SMTP: the validating resolver
(internal/security/dane/dnssec.go), the TLSA lookup (tlsa.go), the validator
with its own cache and its TLS configuration (dane.go), certificate matching
(verification.go), and the connection made with them (dialSMTP and
daneTLSRequirement of internal/delivery/delivery.go).

The network enters as what it answers: an `Exchange` is everything one query
may meet, a `Dial` everything one connection may meet.  Parsing certificates,
hashing and checking signatures belong to libraries and are parameters.  The
resolver hashes its cache keys; here a key is the text that is hashed.
-/
import EmailService.Entry
import EmailService.ExpiringCache

namespace EmailService

namespace Dane

open ExpiringCache

/-! ### DNS messages -/

/-- `dns.RRSIG`. -/
structure RRSIG where
  typeCovered : UInt16
  signerName : String := ""
  keyTag : UInt16 := 0
  signature : String := ""
  deriving DecidableEq

/-- The data of a resource record, as far as its type is looked at. -/
inductive RData
  | tlsa (usage selector matchingType : UInt8) (certificate : String)
  | rrsig (sig : RRSIG)
  | other (rrtype : UInt16)
  deriving DecidableEq

structure RR where
  ttl : UInt32 := 0
  data : RData
  deriving DecidableEq

/-- `rr.Header().Rrtype`. -/
def RR.rrtype (rr : RR) : UInt16 :=
  match rr.data with
  | .tlsa .. => 52
  | .rrsig _ => 46
  | .other t => t

/-- The signature a record is, if it is one. -/
def RR.asRRSIG (rr : RR) : Option RRSIG :=
  match rr.data with
  | .rrsig sig => some sig
  | _ => none

/-- `dns.Msg`. -/
structure Msg where
  authenticatedData : Bool := false
  truncated : Bool := false
  rcode : ℕ := 0
  answer : List RR := []
  ns : List RR := []

def rcodeSuccess : ℕ := 0
def rcodeNameError : ℕ := 3

/-- The tables of the DNS library. -/
structure Tables where
  fqdn : String → String
  typeToString : UInt16 → String
  rcodeToString : ℕ → String

/-- The names of the DNS library, in numbers. -/
def plainTables : Tables where
  fqdn := fun name => name ++ "."
  typeToString := fun t => toString t.toNat
  rcodeToString := toString

/-- What one query meets on the network: the last answer over UDP and over TCP,
when it came, and which signatures over which records a key was found for that
verifies them. -/
structure Exchange where
  udp : Except String Msg
  tcp : Except String Msg
  answeredAt : Time
  checks : RRSIG → List RR → Bool

/-! ### Validation -/

/-- `ValidationResult`. -/
structure ValidationResult where
  authentic : Bool := false
  bogus : Bool := false
  insecure : Bool := false
  errorReason : String := ""
  deriving DecidableEq

/-- The signatures of a message. -/
def Msg.rrsigs (msg : Msg) : List RRSIG := (msg.answer ++ msg.ns).filterMap RR.asRRSIG

/-- The records of one type that are no signatures. -/
def Msg.rrset (msg : Msg) (rrtype : UInt16) : List RR :=
  (msg.answer ++ msg.ns).filter fun rr => rr.asRRSIG = none && rr.rrtype = rrtype

/-- The records a signature covers are there, and no signature over them
verifies. -/
def Msg.unverified (checks : RRSIG → List RR → Bool) (msg : Msg) (sig : RRSIG) : Bool :=
  !(msg.rrset sig.typeCovered).isEmpty &&
    !msg.rrsigs.any fun s =>
      s.typeCovered = sig.typeCovered && checks s (msg.rrset sig.typeCovered)

/-- `validateSignatures`.  The source visits the covered types in the order of
a map; the order only decides which type an error names. -/
def validateSignatures (T : Tables) (checks : RRSIG → List RR → Bool) (msg : Msg) :
    Except String Bool :=
  if msg.rrsigs.isEmpty then .error "no RRSIG records found"
  else
    match msg.rrsigs.find? (msg.unverified checks) with
    | some sig => .error ("failed to validate RRSIG for " ++ T.typeToString sig.typeCovered)
    | none => .ok true

/-- `validateResponse`. -/
def validateResponse (T : Tables) (checks : RRSIG → List RR → Bool) (msg : Msg) :
    ValidationResult :=
  if msg.authenticatedData then { authentic := true }
  else if !(msg.answer ++ msg.ns).any fun rr => rr.rrtype = 46 then { insecure := true }
  else
    match validateSignatures T checks msg with
    | .error err => { bogus := true, errorReason := "signature validation failed: " ++ err }
    | .ok validated => { authentic := validated }

/-! ### The resolver -/

/-- `cacheEntry`: the message, and whether it was found authentic. -/
abbrev ResolverCache := Cache String (Msg × Bool)

def second : Duration := 1000000000

/-- How long `dnssecCache.set` keeps a message. -/
def Msg.lifetime (msg : Msg) : Duration :=
  match msg.answer with
  | [] => 300 * second
  | rr :: _ => rr.ttl.toNat * second

/-- The message of an exchange, asked for again over TCP if it was truncated. -/
def Exchange.response (x : Exchange) : Except String Msg :=
  match x.udp with
  | .error err => .error ("all DNS servers failed: " ++ err)
  | .ok msg =>
    if msg.truncated then
      match x.tcp with
      | .error err => .error ("TCP query failed: " ++ err)
      | .ok msg => .ok msg
    else .ok msg

/-- `getCacheKey` of the resolver, for a TLSA query. -/
def resolverKey (T : Tables) (qname : String) : String := T.fqdn qname ++ ":52"

/-- `Query`, for TLSA records. -/
def query (T : Tables) (x : Exchange) (now : Time) (cache : ResolverCache) (qname : String) :
    Except String (Msg × ValidationResult) × ResolverCache :=
  let key := resolverKey T qname
  match cache.find now key with
  | some (msg, validated) => (.ok (msg, { authentic := validated }), cache.afterGet now key)
  | none =>
    match x.response with
    | .error err => (.error err, cache.afterGet now key)
    | .ok msg =>
      let result := validateResponse T x.checks msg
      (.ok (msg, result),
        (cache.afterGet now key).set key (msg, result.authentic) (x.answeredAt + msg.lifetime))

/-! ### TLSA records -/

/-- `TLSARecord`. -/
structure TLSARecord where
  usage : UInt8
  selector : UInt8
  matchingType : UInt8
  certificate : List UInt8
  ttl : UInt32 := 0
  domain : String := ""
  port : ℤ := 25
  deriving DecidableEq

/-- `TLSALookupResult`. -/
structure TLSALookupResult where
  records : List TLSARecord := []
  dnssecValid : Bool := false
  dnssecBogus : Bool := false
  dnssecInsecure : Bool := false
  errorReason : String := ""

/-- `IsValid`. -/
def TLSARecord.isValid (t : TLSARecord) : Option String :=
  if 3 < t.usage then
    some ("invalid usage value: " ++ toString t.usage ++ " (must be 0-3)")
  else if 1 < t.selector then
    some ("invalid selector value: " ++ toString t.selector ++ " (must be 0-1)")
  else if 2 < t.matchingType then
    some ("invalid matching type: " ++ toString t.matchingType ++ " (must be 0-2)")
  else if t.certificate.length = 0 then some "empty certificate data"
  else if t.matchingType = 1 ∧ t.certificate.length ≠ 32 then
    some ("SHA-256 hash must be 32 bytes, got " ++ toString t.certificate.length)
  else if t.matchingType = 2 ∧ t.certificate.length ≠ 64 then
    some ("SHA-512 hash must be 64 bytes, got " ++ toString t.certificate.length)
  else none

/-- The value of a hexadecimal digit. -/
def hexDigit (c : Char) : Option UInt8 :=
  if '0' ≤ c ∧ c ≤ '9' then some (c.toNat - '0'.toNat).toUInt8
  else if 'a' ≤ c ∧ c ≤ 'f' then some (c.toNat - 'a'.toNat + 10).toUInt8
  else if 'A' ≤ c ∧ c ≤ 'F' then some (c.toNat - 'A'.toNat + 10).toUInt8
  else none

/-- `hex.DecodeString`, without its errors. -/
def hexDecode : List Char → Option (List UInt8)
  | [] => some []
  | [_] => none
  | a :: b :: rest => do
      let high ← hexDigit a
      let low ← hexDigit b
      let bytes ← hexDecode rest
      pure ((high * 16 + low) :: bytes)

/-- The record of an answer `LookupTLSA` keeps: converted by
`tlsaRecordFromDNS` and valid. -/
def RR.tlsaRecord (hostname : String) (port : ℤ) (rr : RR) : Option TLSARecord :=
  match rr.data with
  | .tlsa usage selector matchingType certificate =>
    match hexDecode certificate.toList with
    | none => none
    | some bytes =>
      let record : TLSARecord :=
        { usage := usage
          selector := selector
          matchingType := matchingType
          certificate := bytes
          ttl := rr.ttl
          domain := hostname
          port := port }
      if record.isValid = none then some record else none
  | _ => none

/-- What `LookupTLSA` makes of a message and its validation: the result, and
the error. -/
def tlsaResult (T : Tables) (hostname : String) (port : ℤ) (msg : Msg)
    (validation : ValidationResult) : TLSALookupResult × Option String :=
  let result : TLSALookupResult :=
    { dnssecValid := validation.authentic
      dnssecBogus := validation.bogus
      dnssecInsecure := validation.insecure
      errorReason := validation.errorReason }
  if validation.bogus then
    (result, some ("DNSSEC validation failed: " ++ validation.errorReason))
  else if msg.rcode ≠ rcodeSuccess then
    if msg.rcode = rcodeNameError then (result, none)
    else (result, some ("DNS query failed with rcode: " ++ T.rcodeToString msg.rcode))
  else ({ result with records := msg.answer.filterMap (RR.tlsaRecord hostname port) }, none)

/-- The query name of a TLSA lookup. -/
def tlsaName (hostname : String) (port : ℤ) : String :=
  "_" ++ toString port ++ "._tcp." ++ hostname

/-- `LookupTLSA`. -/
def lookupTLSA (T : Tables) (x : Exchange) (now : Time) (cache : ResolverCache)
    (hostname : String) (port : ℤ) : (TLSALookupResult × Option String) × ResolverCache :=
  match query T x now cache (tlsaName hostname port) with
  | (.error err, cache) => (({ errorReason := "DNS query failed: " ++ err }, some err), cache)
  | (.ok (msg, validation), cache) => (tlsaResult T hostname port msg validation, cache)

/-! ### The validator -/

/-- The two caches of a `DANEValidator`. -/
structure State where
  resolver : ResolverCache := Cache.empty
  validator : Cache String TLSALookupResult := Cache.empty

/-- `getCacheKey` of the validator. -/
def validatorKey (hostname : String) (port : ℤ) : String := hostname ++ ":" ++ toString port

/-- How long `tlsaCache.set` keeps a result. -/
def TLSALookupResult.lifetime (result : TLSALookupResult) : Duration :=
  match result.records with
  | [] => 3600 * second
  | r :: _ => r.ttl.toNat * second

/-- `DANEValidator.LookupTLSA`. -/
def State.lookupTLSA (T : Tables) (s : State) (x : Exchange) (now : Time) (hostname : String)
    (port : ℤ) : (TLSALookupResult × Option String) × State :=
  let key := validatorKey hostname port
  let validator := s.validator.afterGet now key
  match s.validator.find now key with
  | some result => ((result, none), { s with validator := validator })
  | none =>
    match Dane.lookupTLSA T x now s.resolver hostname port with
    | ((result, some err), resolver) => ((result, some err), ⟨resolver, validator⟩)
    | ((result, none), resolver) =>
      ((result, none),
        ⟨resolver, validator.set key result (x.answeredAt + result.lifetime)⟩)

/-! ### Certificates -/

/-- What is read of an `x509.Certificate`; `marshalledKey` is what
`MarshalPKIXPublicKey` gives for its public key. -/
structure Certificate where
  raw : List UInt8
  rawSubjectPublicKeyInfo : List UInt8 := []
  marshalledKey : Except String (List UInt8) := .error "x509: unsupported public key type"
  isCA : Bool := false

/-- Parsing, and the two hash functions. -/
structure Crypto where
  parseCertificate : List UInt8 → Except String Certificate
  sha256 : List UInt8 → List UInt8
  sha512 : List UInt8 → List UInt8

/-- Every text is a certificate, and its own digest. -/
def bareCrypto : Crypto where
  parseCertificate := fun raw => .ok { raw := raw }
  sha256 := id
  sha512 := id

/-- `extractSPKI`. -/
def extractSPKI (cert : Certificate) : Except String (List UInt8) :=
  if cert.rawSubjectPublicKeyInfo ≠ [] then .ok cert.rawSubjectPublicKeyInfo
  else
    match cert.marshalledKey with
    | .error err => .error ("failed to marshal SPKI: " ++ err)
    | .ok bytes => .ok bytes

/-- `extractCertificateData`. -/
def extractCertificateData (cert : Certificate) (selector : UInt8) :
    Except String (List UInt8) :=
  if selector = 0 then .ok cert.raw
  else if selector = 1 then extractSPKI cert
  else .error ("unknown TLSA selector: " ++ toString selector)

/-- `matchData`. -/
def matchData (C : Crypto) (certData tlsaData : List UInt8) (matchingType : UInt8) :
    Except String Bool :=
  if matchingType = 0 then .ok (certData == tlsaData)
  else if matchingType = 1 then .ok (C.sha256 certData == tlsaData)
  else if matchingType = 2 then .ok (C.sha512 certData == tlsaData)
  else .error ("unknown TLSA matching type: " ++ toString matchingType)

/-- The data of a certificate against a record, as each branch of
`matchCertificateToTLSA` compares them. -/
def matchCertificate (C : Crypto) (cert : Certificate) (tlsa : TLSARecord) : Except String Bool :=
  match extractCertificateData cert tlsa.selector with
  | .error err => .error ("failed to extract certificate data: " ++ err)
  | .ok data => matchData C data tlsa.certificate tlsa.matchingType

/-- A certificate for which the comparison fails is passed over. -/
def matchesRecord (C : Crypto) (tlsa : TLSARecord) (cert : Certificate) : Bool :=
  match matchCertificate C cert tlsa with
  | .ok matched => matched
  | .error _ => false

section Chain

variable (C : Crypto) (cert : Certificate) (chain : List Certificate) (tlsa : TLSARecord)

/-- `verifyPKIXTA`: the loop over the certificates looks at authorities only. -/
def verifyPKIXTA : Except String Bool :=
  if (cert :: chain).any fun c => c.isCA && matchesRecord C tlsa c then .ok true
  else .error "no CA in chain matched PKIX-TA record"

/-- `verifyDANETA`. -/
def verifyDANETA : Except String Bool :=
  if (cert :: chain).any (matchesRecord C tlsa) then .ok true
  else .error "no certificate in chain matched DANE-TA record"

/-- `matchCertificateToTLSA`. -/
def matchCertificateToTLSA : Except String Bool :=
  if tlsa.usage = 0 then verifyPKIXTA C cert chain tlsa
  else if tlsa.usage = 2 then verifyDANETA C cert chain tlsa
  else if tlsa.usage = 1 ∨ tlsa.usage = 3 then matchCertificate C cert tlsa
  else .error ("unknown TLSA usage: " ++ toString tlsa.usage)

/-- A record that cannot be compared is passed over. -/
def recordMatches : Bool :=
  match matchCertificateToTLSA C cert chain tlsa with
  | .ok matched => matched
  | .error _ => false

/-- `VerifyCertificate`: the first record that matches. -/
def verifyCertificate (records : List TLSARecord) : Except String TLSARecord :=
  if records = [] then .error "no TLSA records to verify against"
  else
    match records.find? (recordMatches C cert chain) with
    | some tlsa => .ok tlsa
    | none => .error "no matching TLSA record found"

/-- What the callback of `GetTLSConfig` reads of a `DANEResult`. -/
structure DANEResult where
  valid : Bool := false
  enforced : Bool := false
  errorReason : String := ""

/-- The part of `VerifyHostname` after the lookup. -/
def verifyAgainst (tlsa : TLSALookupResult) : DANEResult × Option String :=
  if tlsa.records = [] then ({ valid := true }, none)
  else
    match verifyCertificate C cert chain tlsa.records with
    | .error err =>
      ({ enforced := true, errorReason := "verification failed: " ++ err }, some err)
    | .ok _ => ({ valid := true, enforced := true }, none)

end Chain

/-- `VerifyHostname`. -/
def State.verifyHostname (T : Tables) (C : Crypto) (s : State) (x : Exchange) (now : Time)
    (hostname : String) (port : ℤ) (cert : Certificate) (chain : List Certificate) :
    (DANEResult × Option String) × State :=
  match s.lookupTLSA T x now hostname port with
  | ((_, some err), s) => (({ errorReason := "TLSA lookup failed: " ++ err }, some err), s)
  | ((tlsa, none), s) => (verifyAgainst C cert chain tlsa, s)

/-- The certificates of a chain that can be parsed. -/
def Crypto.parsed (C : Crypto) (rawCerts : List (List UInt8)) : List Certificate :=
  rawCerts.filterMap fun raw => (C.parseCertificate raw).toOption

/-- `VerifyPeerCertificate` of `GetTLSConfig`: the error that stops the
handshake. -/
def State.verifyPeerCertificate (T : Tables) (C : Crypto) (strictMode : Bool) (s : State)
    (x : Exchange) (now : Time) (hostname : String) (port : ℤ) (rawCerts : List (List UInt8)) :
    Option String × State :=
  match rawCerts with
  | [] => (some "no certificates presented", s)
  | raw :: rest =>
    match C.parseCertificate raw with
    | .error err => (some ("failed to parse certificate: " ++ err), s)
    | .ok cert =>
      match s.verifyHostname T C x now hostname port cert (C.parsed rest) with
      | ((_, some err), s) => (some ("DANE validation failed: " ++ err), s)
      | ((result, none), s) =>
        if !result.valid && (strictMode || result.enforced) then
          let reason :=
            if result.errorReason = "" then
              "no TLSA record matched the presented certificate"
            else result.errorReason
          (some ("DANE validation failed: " ++ reason), s)
        else (none, s)

/-! ### The connection -/

/-- `daneTLSRequirement`. -/
def daneTLSRequirement (result : TLSALookupResult) (lookupErr : Option String) :
    Except String Bool :=
  match lookupErr with
  | some err => .error err
  | none =>
    if result.dnssecBogus then
      if result.errorReason ≠ "" then
        .error ("DNSSEC validation is bogus: " ++ result.errorReason)
      else .error "DNSSEC validation is bogus"
    else .ok (result.dnssecValid && !result.records.isEmpty)

/-- What one connection meets: the errors of its steps, whether STARTTLS is
offered, the certificates presented, how the handshakes end otherwise, and what
the two lookups meet. -/
structure Dial where
  dialErr : Option String := none
  greetingErr : Option String := none
  helloErr : Option String := none
  starttlsOffered : Bool := true
  rawCerts : List (List UInt8) := []
  handshakeErr : Option String := none
  checked : Time
  lookup : Exchange
  verified : Time
  relookup : Exchange

/-- How a connection is protected. -/
inductive Channel
  | dane
  | opportunistic
  | clear
  deriving DecidableEq

/-- What `MailDelivery` is configured with here. -/
structure Settings where
  daneEnabled : Bool := true
  strictMode : Bool := false

/-- The DANE part of `dialSMTP`: whether TLS is mandatory. -/
def State.checkDANE (T : Tables) (cfg : Settings) (s : State) (d : Dial) (mxHost : String) :
    Except String Bool × State :=
  if cfg.daneEnabled then
    match s.lookupTLSA T d.lookup d.checked mxHost 25 with
    | ((result, err), s) =>
      match daneTLSRequirement result err with
      | .error e => (.error ("cannot determine DANE policy for " ++ mxHost ++ ": " ++ e), s)
      | .ok mandatory => (.ok mandatory, s)
  else (.ok false, s)

/-- The STARTTLS part of `dialSMTP`. -/
def State.secure (T : Tables) (C : Crypto) (cfg : Settings) (s : State) (d : Dial)
    (mxHost : String) (mandatory : Bool) : Except String Channel × State :=
  if mandatory then
    if !d.starttlsOffered then
      (.error ("DANE required for " ++ mxHost ++ " but server does not offer STARTTLS"), s)
    else
      let failed (err : String) :=
        "DANE-authenticated STARTTLS to " ++ mxHost ++ " failed: " ++ err
      match d.handshakeErr with
      | some err => (.error (failed err), s)
      | none =>
        match s.verifyPeerCertificate T C cfg.strictMode d.relookup d.verified mxHost 25
            d.rawCerts with
        | (some err, s) => (.error (failed err), s)
        | (none, s) => (.ok .dane, s)
  else if d.starttlsOffered then
    match d.handshakeErr with
    | some err => (.error ("STARTTLS failed: " ++ err), s)
    | none => (.ok .opportunistic, s)
  else (.ok .clear, s)

/-- `dialSMTP`. -/
def State.dialSMTP (T : Tables) (C : Crypto) (cfg : Settings) (s : State) (d : Dial)
    (mxHost : String) : Except String Channel × State :=
  match d.dialErr with
  | some err => (.error ("dial failed: " ++ err), s)
  | none =>
    match d.greetingErr with
    | some err => (.error ("SMTP handshake failed: " ++ err), s)
    | none =>
      match d.helloErr with
      | some err => (.error ("EHLO failed: " ++ err), s)
      | none =>
        match s.checkDANE T cfg d mxHost with
        | (.error err, s) => (.error err, s)
        | (.ok mandatory, s) => s.secure T C cfg d mxHost mandatory

end Dane

end EmailService
