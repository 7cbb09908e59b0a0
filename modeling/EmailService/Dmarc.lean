/-
EmailService/Dmarc.lean

DMARC policies (internal/security/spf_dmarc.go).

A domain publishes its policy in a TXT record under `_dmarc`, or leaves it to
its organizational domain; `published` says which policy that makes for mail
from a domain.  `evaluateDMARCDetails` looks the records up.  The resolver
answers a name without TXT records with an error, and an error ends the search:
the policy of the organizational domain is found only where the name of the
domain itself has TXT records of another kind.
-/
import EmailService.GoStrings

namespace EmailService.Dmarc

open GoStrings

/-! ### Records -/

inductive Policy
  | none
  | quarantine
  | reject
  deriving DecidableEq

/-- `DMARCRecord`; `adkim` and `aspf` say whether alignment is strict. -/
structure Record where
  policy : Policy := .none
  subPolicy : Policy := .none
  hasSubPolicy : Bool := false
  adkim : Bool := false
  aspf : Bool := false
  pct : ℤ := 100

/-- `parseDMARCPolicyStr`. -/
def parsePolicy (s : String) : Policy :=
  if s = "reject" then .reject else if s = "quarantine" then .quarantine else .none

/-- One tag of a record. -/
def Record.tag (r : Record) (part : String) : Record :=
  match cut (trimSpace part) '=' with
  | none => r
  | some (key, val) =>
    let val := trimSpace val
    match trimSpace key with
    | "p" => { r with policy := parsePolicy val }
    | "sp" => { r with subPolicy := parsePolicy val, hasSubPolicy := true }
    | "adkim" => if val = "s" then { r with adkim := true } else r
    | "aspf" => if val = "s" then { r with aspf := true } else r
    | "pct" =>
      match scanInt val.toList with
      | some n => if 0 ≤ n ∧ n ≤ 100 then { r with pct := n } else r
      | none => r
    | _ => r

/-- `parseDMARCRecord`. -/
def parseRecord (raw : String) : Record :=
  let r := (split raw ';').foldl Record.tag {}
  if r.hasSubPolicy then r else { r with subPolicy := r.policy }

/-! ### Names -/

/-- The tables of the libraries: letters, and the public suffix list, where
`etldPlusOne` is `EffectiveTLDPlusOne`. -/
structure Names where
  U : CaseTables
  etldPlusOne : String → Option String

variable (N : Names)

/-- `orgDomain`. -/
def orgDomain (d : String) : String := (N.etldPlusOne (toLower N.U d)).getD (toLower N.U d)

/-- `domainsAlign`. -/
def domainsAlign (fromDomain authDomain : String) (strict : Bool) : Bool :=
  if strict then equalFold N.U fromDomain authDomain
  else orgDomain N fromDomain = orgDomain N authDomain

/-! ### The records of the DNS -/

/-- The TXT records the DNS publishes under each name. -/
abbrev Zone := String → List String

/-- `Resolver.LookupTXT`, where the DNS answers: a name without TXT records is
not found. -/
def lookupTXT (zone : Zone) (domain : String) : Except String (List String) :=
  match zone (toLower N.U (trimSuffix domain ".")) with
  | [] => .error "no such host"
  | records => .ok records

def isDMARC (record : String) : Bool := hasPrefix (toLower N.U (trimSpace record)) "v=dmarc1"

/-- The domains `lookupDMARCRecord` asks. -/
def lookupDomains (fromDomain : String) : List String :=
  if equalFold N.U (orgDomain N fromDomain) fromDomain then [fromDomain]
  else [fromDomain, orgDomain N fromDomain]

/-- The loop of `lookupDMARCRecord`. -/
def searchRecord (zone : Zone) : List String → Except String (Option (String × String))
  | [] => .ok none
  | domain :: rest =>
    match lookupTXT N zone ("_dmarc." ++ domain) with
    | .error err => .error err
    | .ok records =>
      match records.find? (isDMARC N) with
      | some record => .ok (some (record, domain))
      | none => searchRecord zone rest

/-- `lookupDMARCRecord`. -/
def lookupRecord (zone : Zone) (fromDomain : String) : Except String (Option (String × String)) :=
  searchRecord N zone (lookupDomains N fromDomain)

/-! ### Evaluation -/

/-- A DKIM signature: its domain, and whether it verifies. -/
structure DKIMVerification where
  domain : String
  pass : Bool

/-- What authenticates a message: the SPF result with its domain, and the
signatures. -/
structure Evidence where
  spfDomain : String
  spfResult : String
  dkim : List DKIMVerification

/-- The policy that applies to a domain, with its percentage and alignment. -/
structure Applied where
  policy : Policy
  pct : ℤ
  adkim : Bool
  aspf : Bool
  deriving DecidableEq

/-- The policy of a record found under `policyDomain`. -/
def applied (fromDomain : String) : String × String → Applied := fun (record, policyDomain) =>
  let r := parseRecord record
  { policy := if equalFold N.U policyDomain fromDomain then r.policy else r.subPolicy
    pct := r.pct
    adkim := r.adkim
    aspf := r.aspf }

/-- SPF authenticates a domain that is aligned. -/
def spfPass (fromDomain : String) (a : Applied) (e : Evidence) : Bool :=
  e.spfResult = "pass" && domainsAlign N fromDomain e.spfDomain a.aspf

/-- A signature authenticates a domain that is aligned. -/
def dkimPass (fromDomain : String) (a : Applied) (e : Evidence) : Bool :=
  e.dkim.any fun v => v.pass && domainsAlign N fromDomain v.domain a.adkim

inductive Result
  | pass
  | fail
  | none
  deriving DecidableEq

/-- `DMARCEvaluation`. -/
structure Evaluation where
  result : Result
  policy : Policy
  pct : ℤ

/-- `EvaluateDMARCDetails`; a lookup that fails counts as no policy. -/
def evaluateDMARCDetails (zone : Zone) (fromDomain : String) (e : Evidence) : Evaluation :=
  match lookupRecord N zone fromDomain with
  | .ok (some found) =>
    let a := applied N fromDomain found
    { result := if spfPass N fromDomain a e || dkimPass N fromDomain a e then .pass else .fail
      policy := a.policy
      pct := a.pct }
  | _ => { result := .none, policy := .none, pct := 100 }

/-! ### What a domain publishes -/

/-- The record of the first of the domains that publishes one. -/
def publishedRecord (zone : Zone) : List String → Option (String × String)
  | [] => none
  | domain :: rest =>
    match (zone (toLower N.U (trimSuffix ("_dmarc." ++ domain) "."))).find? (isDMARC N) with
    | some record => some (record, domain)
    | none => publishedRecord zone rest

/-- The policy for mail from a domain: its own, or that of its organizational
domain for subdomains. -/
def published (zone : Zone) (fromDomain : String) : Option Applied :=
  (publishedRecord N zone (lookupDomains N fromDomain)).map (applied N fromDomain)

/-- The policy `evaluateDMARCDetails` finds. -/
def found (zone : Zone) (fromDomain : String) : Option Applied :=
  match lookupRecord N zone fromDomain with
  | .ok (some found) => some (applied N fromDomain found)
  | _ => none

/-- The message is not authenticated for the domain. -/
def Unauthenticated (fromDomain : String) (a : Applied) (e : Evidence) : Prop :=
  spfPass N fromDomain a e = false ∧ dkimPass N fromDomain a e = false

/-- The policy asks for rejection or quarantine of every message. -/
def Applied.Demanding (a : Applied) : Prop := a.policy ≠ .none ∧ a.pct = 100

variable {zone : Zone} {fromDomain : String}

theorem evaluate_of_found {a : Applied} (h : found N zone fromDomain = some a) (e : Evidence) :
    evaluateDMARCDetails N zone fromDomain e =
      { result := if spfPass N fromDomain a e || dkimPass N fromDomain a e then .pass else .fail
        policy := a.policy
        pct := a.pct } := by
  unfold found at h
  unfold evaluateDMARCDetails
  split at h
  · cases h
    rfl
  · cases h

theorem evaluate_of_not_found (h : found N zone fromDomain = none) (e : Evidence) :
    evaluateDMARCDetails N zone fromDomain e =
      { result := .none, policy := .none, pct := 100 } := by
  unfold found at h
  unfold evaluateDMARCDetails
  split at h
  · cases h
  · rfl

theorem unauthenticated_nothing (fromDomain : String) (a : Applied) (spfDomain : String) :
    Unauthenticated N fromDomain a ⟨spfDomain, "none", []⟩ := ⟨rfl, rfl⟩

end EmailService.Dmarc
