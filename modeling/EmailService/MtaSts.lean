/-
EmailService/MtaSts.lean

MTA-STS policies (internal/security/mta_sts.go): discovery, the policy file,
the cache, and what a policy demands for an MX host.

`Availability` is the policy state of a domain at one call: no policy, one that
`GetPolicy` returns, or one that was fetched and found valid but could not be
saved, which `GetPolicy` reports as an error (`getPolicy_eq`).
-/
import EmailService.GoStrings
import EmailService.Entry

namespace EmailService

open GoStrings

namespace Sts

/-- `MTASTSPolicy`. -/
structure Policy where
  version : String := ""
  mode : String := ""
  mx : List String := []
  maxAge : ℤ := 0
  deriving DecidableEq

/-! ### The policy file -/

/-- `strconv.Atoi`. -/
def atoi (s : String) : Option ℤ :=
  let (negative, ds) :=
    match s.toList with
    | '-' :: ds => (true, ds)
    | '+' :: ds => (false, ds)
    | ds => (false, ds)
  if ds = [] ∨ !ds.all Char.isDigit then none
  else
    let n : ℤ := (ds.foldl (fun n c => 10 * n + (c.toNat - 48)) 0 : ℕ)
    let z := if negative then -n else n
    if -2 ^ 63 ≤ z ∧ z < 2 ^ 63 then some z else none

/-- One line of `parsePolicy`, with the keys seen so far. -/
def parseLine (st : Policy × List String) (line : String) : Except String (Policy × List String) :=
  let (policy, seen) := st
  let line := trimSpace line
  if line = "" ∨ hasPrefix line "#" then .ok st
  else
    match cut line ':' with
    | none => .error "malformed policy line"
    | some (key, value) =>
      let key := trimSpace key
      let value := trimSpace value
      if key ≠ "mx" ∧ key ∈ seen then .error ("duplicate policy field " ++ key)
      else
        let seen := key :: seen
        if key = "version" then .ok ({ policy with version := value }, seen)
        else if key = "mode" then .ok ({ policy with mode := value }, seen)
        else if key = "mx" then .ok ({ policy with mx := policy.mx ++ [value] }, seen)
        else if key = "max_age" then
          match atoi value with
          | none => .error ("strconv.Atoi: parsing " ++ value)
          | some n => .ok ({ policy with maxAge := n }, seen)
        else .ok (policy, seen)

/-- `parsePolicy`. -/
def parsePolicy (content : String) : Except String Policy :=
  match (split content '\n').foldlM parseLine ({}, []) with
  | .error err => .error err
  | .ok (policy, seen) => if "max_age" ∈ seen then .ok policy else .error "missing max_age"

/-- `validatePolicy`. -/
def validatePolicy (policy : Policy) : Option String :=
  if policy.version ≠ "STSv1" then some ("unsupported version: " ++ policy.version)
  else if policy.mode ∉ ["enforce", "testing", "none"] then some ("invalid mode: " ++ policy.mode)
  else if policy.mode ≠ "none" ∧ policy.mx = [] then
    some "no MX patterns specified for non-none mode"
  else if policy.maxAge < 0 then some ("invalid max_age: " ++ toString policy.maxAge)
  else if 31557600 < policy.maxAge then
    some ("max_age too large: " ++ toString policy.maxAge ++ " (max 31557600)")
  else none

/-! ### Discovery -/

/-- `MTASTSManager`: the cached policies with the time they expire. -/
structure Manager where
  cache : String → Option (Policy × Time)

/-- What one `GetPolicy` meets: the clock, DNS, the web server and the disk. -/
structure Fetch where
  now : Time
  txt : Except String (List String) := .error "no such host"
  requestErr : Option String := none
  response : Except String (ℕ × Except String String) := .error "connection refused"
  cachedAt : Time
  saveErr : Option String := none

/-- The TXT record of a policy. -/
def isPolicyRecord (record : String) : Bool :=
  hasPrefix record "v=STSv1;" && decide ("id=".toList <:+: record.toList)

/-- The policy a fetch finds, if it finds a valid one. -/
def Fetch.policy (f : Fetch) : Except String Policy :=
  match f.txt with
  | .error err => .error err
  | .ok records =>
    match records.filter isPolicyRecord with
    | [] => .error "no published MTA-STS policy"
    | _ :: _ :: _ => .error "multiple MTA-STS records"
    | [_] =>
      match f.requestErr with
      | some err => .error ("failed to create request: " ++ err)
      | none =>
        match f.response with
        | .error err => .error ("failed to fetch policy: " ++ err)
        | .ok (status, body) =>
          if status ≠ 200 then .error ("unexpected status code: " ++ toString status)
          else
            match body with
            | .error err => .error ("failed to read policy: " ++ err)
            | .ok body =>
              if 65536 < body.utf8ByteSize then .error "MTA-STS policy too large"
              else
                match parsePolicy body with
                | .error err => .error ("failed to parse policy: " ++ err)
                | .ok policy =>
                  match validatePolicy policy with
                  | some err => .error ("invalid policy: " ++ err)
                  | none => .ok policy

/-- The cached policy, unless it has expired. -/
def Manager.cached (m : Manager) (now : Time) (domain : String) : Option Policy :=
  match m.cache domain with
  | some (policy, expiresAt) => if now < expiresAt then some policy else none
  | none => none

variable (m : Manager) (f : Fetch) (domain : String)

/-- `GetPolicy`. -/
def Manager.getPolicy : Except String Policy × Manager :=
  match m.cached f.now domain with
  | some policy => (.ok policy, m)
  | none =>
    match f.policy with
    | .error err => (.error err, m)
    | .ok policy =>
      let expiresAt := f.cachedAt + policy.maxAge * 1000000000
      let m := { m with cache := Function.update m.cache domain (some (policy, expiresAt)) }
      match f.saveErr with
      | some err => (.error err, m)
      | none => (.ok policy, m)

/-! ### Availability -/

/-- The policy state of a domain at one call. -/
inductive Availability
  | absent
  | known (policy : Policy)
  | unsaved (policy : Policy)

/-- The policy that is in force. -/
def Availability.inForce : Availability → Option Policy
  | absent => none
  | known policy | unsaved policy => some policy

/-- The policy `GetPolicy` returns. -/
def Availability.returned : Availability → Option Policy
  | known policy => some policy
  | _ => none

def Manager.availability : Availability :=
  match m.cached f.now domain with
  | some policy => .known policy
  | none =>
    match f.policy with
    | .error _ => .absent
    | .ok policy => if f.saveErr = none then .known policy else .unsaved policy

theorem getPolicy_eq : (m.getPolicy f domain).1.toOption = (m.availability f domain).returned := by
  unfold Manager.getPolicy Manager.availability
  rcases m.cached f.now domain with - | policy
  · rcases f.policy with err | policy
    · rfl
    · rcases f.saveErr with - | err
      · rfl
      · rfl
  · rfl

/-! ### What a policy demands -/

variable (U : CaseTables)

/-- `matchesMXPattern`. -/
def matchesMXPattern (mxHost pattern : String) : Bool :=
  let mxHost := toLower U (trimSuffix mxHost ".")
  let pattern := toLower U (trimSuffix pattern ".")
  if mxHost = pattern then true
  else if hasPrefix pattern "*." then
    let suffix := "." ++ String.ofList (pattern.toList.drop 2)
    hasSuffix mxHost suffix && !(trimSuffix mxHost suffix).toList.contains '.'
  else false

/-- The policy lists the host. -/
def Policy.lists (policy : Policy) (mxHost : String) : Bool :=
  policy.mx.any (matchesMXPattern U mxHost)

/-- `ShouldEnforceTLS` on the answer of `GetPolicy`.  In the loop of the source
a pattern that matches decides by the mode alone. -/
def enforcement (policy : Option Policy) (mxHost : String) : Except String Bool :=
  match policy with
  | none => .ok false
  | some policy =>
    if policy.mode = "enforce" then
      if policy.lists U mxHost then .ok true
      else .error ("MX host " ++ mxHost ++ " not authorized by MTA-STS policy")
    else .ok false

/-- `ShouldEnforceTLS`. -/
def Manager.shouldEnforceTLS (m : Manager) (f : Fetch) (domain mxHost : String) :
    Except String Bool × Manager :=
  (enforcement U (m.getPolicy f domain).1.toOption mxHost, (m.getPolicy f domain).2)

end Sts

end EmailService
