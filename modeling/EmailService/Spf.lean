/-
EmailService/Spf.lean

The evaluation of SPF records (internal/security/spf_dmarc.go: `VerifySPF`,
`evaluateSPF`, `evaluateSPFDomain` and the mechanisms).

The functions return the result together with the lookups they make, in order.
`depth` counts up to eleven in the source; here `left` counts down from there,
and the recursion is on it.

Main result: `lookups_bounded_iff`.  The evaluation stops at a depth, not at a
number of lookups: it makes one for every term with a lookup that it meets, and
each record may have any number of them.
-/
import EmailService.NetIp
import EmailService.Resolver

namespace EmailService.Spf

open GoStrings NetIp

/-- `SPFResult`. -/
inductive SPFResult
  | pass | fail | softfail | neutral | none | temperror | permerror
  deriving DecidableEq

/-- What the resolver replies for a name. -/
structure Replies where
  txt : String → Dns.Reply String
  ip : String → Dns.Reply IP
  mx : String → Dns.Reply String

/-- A call of the resolver, by what causes it: an `include` or a `redirect`, an
`a` term, an `mx` term, or one of the hosts that an `mx` term has found. -/
inductive Lookup
  | txt (name : String)
  | address (name : String)
  | mx (name : String)
  | host (name : String)
  deriving DecidableEq

/-- A lookup of a term itself. -/
def Lookup.ofTerm : Lookup → Bool
  | .host _ => false
  | _ => true

abbrev Logged (α : Type) := α × List Lookup

/-- How the code reads a part of a record. -/
structure Term where
  qualifier : SPFResult
  mechType : String
  mechValue : String

/-- The result that a qualifier stands for, if the character is one. -/
def qualifierOf : Char → Option SPFResult
  | '+' => some .pass
  | '-' => some .fail
  | '~' => some .softfail
  | '?' => some .neutral
  | _ => none

/-- Without the qualifier: the type up to the first colon and the value. -/
def readMechanism (qualifier : SPFResult) (mechanism : String) : Term :=
  match cut mechanism ':' with
  | some (mechType, mechValue) => ⟨qualifier, mechType, mechValue⟩
  | none => ⟨qualifier, mechanism, ""⟩

/-- A part of a record; nothing if it is taken for a modifier. -/
def readTerm (part : String) : Option Term :=
  if '=' ∈ part.toList then none
  else
    match part.toList with
    | [] => some (readMechanism .pass part)
    | c :: rest =>
      match qualifierOf c with
      | some q => some (readMechanism q (String.ofList rest))
      | none => some (readMechanism .pass part)

/-- The target of the first `redirect=`, or `""`. -/
def redirectTarget (parts : List String) : String :=
  match parts.find? (hasPrefix · "redirect=") with
  | some part => trimPrefix part "redirect="
  | none => ""

section Evaluation

variable (dns : Replies) (ip : IP)

/-- `matchIP4`. -/
def matchIP4 (cidr : String) : Bool :=
  match ip.to4 with
  | none => false
  | some _ =>
    let cidr := if '/' ∈ cidr.toList then cidr else cidr ++ "/32"
    match parseCIDR cidr with
    | some ipNet => ipNet.contains ip
    | none => false

/-- `matchIP6`. -/
def matchIP6 (cidr : String) : Bool :=
  match ip.to4 with
  | some _ => false
  | none =>
    let cidr := if '/' ∈ cidr.toList then cidr else cidr ++ "/128"
    match parseCIDR cidr with
    | some ipNet => ipNet.contains ip
    | none => false

/-- Whether a name has the address.  A lookup that fails finds none. -/
def hasAddress (domain : String) : Bool :=
  match dns.ip domain with
  | .ok ips => ip ∈ ips
  | .error _ => false

/-- `matchA`; the lookup is recorded as `cause` says. -/
def matchA (cause : String → Lookup) (left : ℕ) (domain : String) : Logged Bool :=
  if left = 0 then (false, []) else (hasAddress dns ip domain, [cause domain])

/-- The loop of `matchMX` over the hosts. -/
def matchHosts (left : ℕ) : List String → Logged Bool
  | [] => (false, [])
  | mxHost :: rest =>
    match matchA dns ip .host left (trimSuffix mxHost ".") with
    | (true, log) => (true, log)
    | (false, log) => ((matchHosts left rest).1, log ++ (matchHosts left rest).2)

/-- `matchMX`, whose addresses are looked up one level deeper. -/
def matchMX (left : ℕ) (domain : String) : Logged Bool :=
  match left with
  | 0 => (false, [])
  | left + 1 =>
    match dns.mx domain with
    | .error _ => (false, [.mx domain])
    | .ok mxRecords =>
      ((matchHosts dns ip left mxRecords).1, .mx domain :: (matchHosts dns ip left mxRecords).2)

/-- What a term comes to: it is skipped, it is an error, or it is tried. -/
inductive Trial
  | skip
  | error
  | tried (hit : Bool) (log : List Lookup)
  deriving DecidableEq

/-- The `switch` on the type of the mechanism, where `evaluateDomain` is
`evaluateSPFDomain` one level deeper. -/
def evaluateMechanism (left : ℕ) (evaluateDomain : String → Logged SPFResult) (domain : String)
    (t : Term) : Trial :=
  let targetDomain := if t.mechValue ≠ "" then t.mechValue else domain
  match t.mechType with
  | "ip4" => .tried (matchIP4 ip t.mechValue) []
  | "ip6" => .tried (matchIP6 ip t.mechValue) []
  | "a" =>
    let (hit, log) := matchA dns ip .address left targetDomain
    .tried hit log
  | "mx" =>
    let (hit, log) := matchMX dns ip left targetDomain
    .tried hit log
  | "include" =>
    if t.mechValue = "" then .error
    else
      let (result, log) := evaluateDomain t.mechValue
      .tried (result = .pass) log
  | "all" => .tried true []
  | _ => .skip

/-- The loop of `evaluateSPF` over the parts of the record, and the redirect
after it. -/
def evaluateParts (left : ℕ) (evaluateDomain : String → Logged SPFResult) (domain : String)
    (redirect : String) : List String → Logged SPFResult
  | [] => if redirect ≠ "" then evaluateDomain redirect else (.neutral, [])
  | part :: rest =>
    let others := evaluateParts left evaluateDomain domain redirect rest
    match readTerm part with
    | none => others
    | some t =>
      match evaluateMechanism dns ip left evaluateDomain domain t with
      | .skip => others
      | .error => (.permerror, [])
      | .tried true log => (t.qualifier, log)
      | .tried false log => (others.1, log ++ others.2)

/-- `evaluateSPFDomain`, where `evaluate` is `evaluateSPF` at the same depth. -/
def evaluateSPFDomain (evaluate : String → String → Logged SPFResult) (domain : String) :
    Logged SPFResult :=
  match dns.txt domain with
  | .error _ => (.temperror, [.txt domain])
  | .ok txtRecords =>
    match txtRecords.find? (hasPrefix · "v=spf1") with
    | none => (.none, [.txt domain])
    | some record => ((evaluate record domain).1, .txt domain :: (evaluate record domain).2)

/-- `evaluateSPF`. -/
def evaluateSPF : ℕ → String → String → Logged SPFResult
  | 0, _, _ => (.permerror, [])
  | left + 1, spfRecord, domain =>
    match fields spfRecord with
    | [] => (.permerror, [])
    | version :: parts =>
      if version ≠ "v=spf1" then (.permerror, [])
      else
        evaluateParts dns ip (left + 1) (evaluateSPFDomain dns (evaluateSPF left)) domain
          (redirectTarget parts) parts

/-- `VerifySPF`: the result, and the lookups after that of the domain's own
record. -/
def verifySPF (domain : String) : Logged SPFResult :=
  match dns.txt domain with
  | .error _ => (.temperror, [])
  | .ok txtRecords =>
    match txtRecords.filter (hasPrefix · "v=spf1") with
    | [] => (.none, [])
    | [spfRecord] => evaluateSPF dns ip 11 spfRecord domain
    | _ => (.permerror, [])

end Evaluation

/-! ### The number of lookups -/

section Met

variable (dns : Replies) (ip : IP)

/-- The terms with a lookup that one part of a record accounts for: itself, and
for an `include` those met in the other record. -/
def termMet (metIn : String → ℕ) (t : Term) : ℕ :=
  if t.mechType = "a" ∨ t.mechType = "mx" then 1
  else if t.mechType = "include" ∧ t.mechValue ≠ "" then 1 + metIn t.mechValue
  else 0

/-- The terms with a lookup from one part of a record on, up to the first part
that matches; if none does, the redirect is one. -/
def partsMet (hits : Term → Bool) (metIn : String → ℕ) (redirect : String) : List String → ℕ
  | [] => if redirect ≠ "" then 1 + metIn redirect else 0
  | part :: rest =>
    match readTerm part with
    | none => partsMet hits metIn redirect rest
    | some t =>
      termMet metIn t + if hits t then 0 else partsMet hits metIn redirect rest

/-- The evaluation ends with the term: it matches, or it is an error. -/
def Trial.ends : Trial → Bool
  | .skip => false
  | .error => true
  | .tried hit _ => hit

def Trial.log : Trial → List Lookup
  | .tried _ log => log
  | _ => []

/-- The terms with a lookup met in a record and those it leads to. -/
def recordMet : ℕ → String → String → ℕ
  | 0, _, _ => 0
  | left + 1, spfRecord, domain =>
    match fields spfRecord with
    | [] => 0
    | version :: parts =>
      if version ≠ "v=spf1" then 0
      else
        partsMet
          (fun t => (evaluateMechanism dns ip (left + 1)
            (evaluateSPFDomain dns (evaluateSPF dns ip left)) domain t).ends)
          (fun target =>
            match dns.txt target with
            | .error _ => 0
            | .ok txtRecords =>
              match txtRecords.find? (hasPrefix · "v=spf1") with
              | none => 0
              | some record => recordMet left record target)
          (redirectTarget parts) parts

/-- The include, `a`, `mx` and redirect terms met on the way from a domain's
record. -/
def termsMet (domain : String) : ℕ :=
  match dns.txt domain with
  | .error _ => 0
  | .ok txtRecords =>
    match txtRecords.filter (hasPrefix · "v=spf1") with
    | [spfRecord] => recordMet dns ip 11 spfRecord domain
    | _ => 0

variable {dns ip} {left : ℕ} {evaluateDomain : String → Logged SPFResult} {metIn : String → ℕ}

/-- The lookups of terms among those made. -/
def termLookups (log : List Lookup) : ℕ := log.countP Lookup.ofTerm

theorem termLookups_matchHosts (hosts : List String) :
    termLookups (matchHosts dns ip left hosts).2 = 0 := by
  induction hosts with
  | nil => rfl
  | cons host rest ih =>
    unfold termLookups at ih
    rw [matchHosts, matchA]
    split_ifs
    · simpa [termLookups] using ih
    · cases hasAddress dns ip (trimSuffix host ".") <;> simp [termLookups, Lookup.ofTerm, ih]

variable {domain : String}

/-- A mechanism makes the lookups of its term. -/
theorem termLookups_evaluateMechanism (t : Term)
    (hdomain : ∀ name, termLookups (evaluateDomain name).2 = 1 + metIn name) :
    termLookups (evaluateMechanism dns ip (left + 1) evaluateDomain domain t).log =
      termMet metIn t := by
  obtain ⟨q, type, value⟩ := t
  unfold evaluateMechanism termMet
  dsimp only
  split
  · simp [Trial.log, termLookups]
  · simp [Trial.log, termLookups]
  · simp [Trial.log, matchA, termLookups, Lookup.ofTerm]
  · have hhosts : ∀ hosts, (matchHosts dns ip left hosts).2.countP Lookup.ofTerm = 0 :=
      fun hosts => termLookups_matchHosts hosts
    unfold matchMX
    dsimp only
    split <;> simp [Trial.log, termLookups, List.countP_cons, Lookup.ofTerm, hhosts]
  · by_cases hvalue : value = ""
    · simp [hvalue, Trial.log, termLookups]
    · simp [hvalue, hdomain, Trial.log]
  · simp [Trial.log, termLookups]
  · simp_all [Trial.log, termLookups]

/-- The parts of a record make the lookups of the terms met. -/
theorem termLookups_evaluateParts {redirect : String}
    (hdomain : ∀ name, termLookups (evaluateDomain name).2 = 1 + metIn name) (parts : List String) :
    termLookups (evaluateParts dns ip (left + 1) evaluateDomain domain redirect parts).2 =
      partsMet (fun t => (evaluateMechanism dns ip (left + 1) evaluateDomain domain t).ends)
        metIn redirect parts := by
  induction parts with
  | nil =>
    rw [evaluateParts, partsMet]
    split_ifs
    · exact hdomain redirect
    · rfl
  | cons part rest ih =>
    rw [evaluateParts, partsMet]
    rcases readTerm part with - | t
    · exact ih
    · dsimp only
      rw [← termLookups_evaluateMechanism t hdomain]
      rcases evaluateMechanism dns ip (left + 1) evaluateDomain domain t with
        - | - | ⟨_ | _, log⟩
      · simpa [Trial.log, Trial.ends, termLookups] using ih
      · simp [Trial.log, Trial.ends, termLookups]
      · rw [← ih]
        simp [Trial.log, Trial.ends, termLookups]
      · simp [Trial.log, Trial.ends]

theorem termLookups_evaluateSPF (left : ℕ) (spfRecord domain : String) :
    termLookups (evaluateSPF dns ip left spfRecord domain).2 =
      recordMet dns ip left spfRecord domain := by
  induction left generalizing spfRecord domain with
  | zero => rfl
  | succ left ih =>
    rw [evaluateSPF, recordMet]
    rcases fields spfRecord with - | ⟨version, parts⟩
    · rfl
    · dsimp only
      split_ifs
      · rfl
      · refine termLookups_evaluateParts (fun name => ?_) parts
        unfold evaluateSPFDomain
        rcases dns.txt name with err | txtRecords
        · rfl
        · dsimp only
          rcases txtRecords.find? (hasPrefix · "v=spf1") with - | record
          · rfl
          · simp only [termLookups, List.countP_cons, Lookup.ofTerm, ite_true]
            rw [← ih, termLookups, add_comm]

/-- **The lookups of terms are the terms met**, and nothing else keeps them
within ten. -/
theorem lookups_bounded_iff (dns : Replies) (ip : IP) (domain : String) :
    termLookups (verifySPF dns ip domain).2 ≤ 10 ↔ termsMet dns ip domain ≤ 10 := by
  unfold verifySPF termsMet
  rcases dns.txt domain with err | txtRecords
  · exact Iff.rfl
  · dsimp only
    rcases txtRecords.filter (hasPrefix · "v=spf1") with - | ⟨spfRecord, - | ⟨other, rest⟩⟩
    · exact Iff.rfl
    · dsimp only
      rw [termLookups_evaluateSPF]
    · exact Iff.rfl

end Met

/-- A DNS with one TXT record for one name, and nothing else. -/
def oneRecord (name record : String) : Replies where
  txt n := if n = name then .ok [record] else .error .notFound
  ip _ := .error .notFound
  mx _ := .error .notFound

/-- **Eleven lookups, and thousands.**  Eleven `a` terms are looked up one after
another; a record that includes itself twice is gone through again and again,
down to the last level. -/
theorem lookups_beyond_ten :
    verifySPF (oneRecord "mail.example" "v=spf1 a a a a a a a a a a a -all") (.v4 0x01020304#32)
        "mail.example" = (.fail, List.replicate 11 (.address "mail.example")) ∧
      termLookups (verifySPF
        (oneRecord "mail.example" "v=spf1 include:mail.example include:mail.example -all")
        (.v4 0x01020304#32) "mail.example").2 = 4094 := by
  decide +kernel

end EmailService.Spf
