/-
EmailService/MailRouting.lean

Which hosts take the mail of a domain (`LookupMailMX` in internal/dns/mail.go).

The lookup follows the aliases of the domain, at most eight names and none of
them twice, and settles at the first name that is no alias.  The names on the
way are the list `via` of `Leads`, and everything else is a matter of the name
at which it settles: `lookupMailMX_settles` for the runs that get there, and
`lookupMailMX_stuck` for those that do not.

A failing query never makes an error permanent.  It need not make one at all:
of the two queries for addresses one may fail, and the other find an address
(`one_family_fails`).

A DNS exchange, the syntax of domain names and the names of the response codes
are those of a DNS library, and parameters of the model.
-/
import EmailService.Delivery

namespace EmailService.MailRouting

open GoStrings List

/-! ### The model -/

inductive RR
  | mx (mx : String) (preference : UInt16)
  | cname (name target : String)
  | other (rrtype : ℕ)
  deriving DecidableEq

def typeA : ℕ := 1
def typeCNAME : ℕ := 5
def typeMX : ℕ := 15
def typeAAAA : ℕ := 28

def RR.rrtype : RR → ℕ
  | mx .. => typeMX
  | cname .. => typeCNAME
  | other rrtype => rrtype

structure Response where
  rcode : ℕ
  truncated : Bool := false
  answer : List RR := []
  deriving DecidableEq

def rcodeSuccess : ℕ := 0
def rcodeNameError : ℕ := 3

/-- `Resolver`, with the library and what the servers answer to it.  An exchange is
with the server at a place of the list, so that a server listed twice may answer
differently. -/
structure Resolver where
  U : CaseTables
  isDomainName : String → Bool
  fqdn : String → String
  rcodeToString : ℕ → String
  mailServers : List String := []
  /-- the servers and the port of /etc/resolv.conf -/
  clientConfig : Except String (List String × String)
  exchange (place : ℕ) (server : String) (tcp : Bool) (name : String) (qtype : ℕ) :
    Except String Response

variable (R : Resolver)

/-- The servers `mailQuery` asks. -/
def servers : Except String (List String) :=
  if R.mailServers.isEmpty then
    match R.clientConfig with
    | .error err => .error err
    | .ok (hosts, port) => .ok (hosts.map (joinHostPort · port))
  else .ok R.mailServers

/-- One round of the loop of `mailQuery`. -/
def askServer (place : ℕ) (server name : String) (qtype : ℕ) : Except String Response :=
  let response :=
    match R.exchange place server false (R.fqdn name) qtype with
    | .ok response =>
      if response.truncated then R.exchange place server true (R.fqdn name) qtype
      else .ok response
    | .error err => .error err
  match response with
  | .error err => .error err
  | .ok response =>
    if response.rcode = rcodeSuccess ∨ response.rcode = rcodeNameError then .ok response
    else .error ("DNS response " ++ R.rcodeToString response.rcode)

/-- The loop of `mailQuery`. -/
def askServers (name : String) (qtype : ℕ) :
    Option String → ℕ → List String → Except String Response
  | last, _, [] => .error (last.getD "no DNS resolvers configured")
  | _, place, server :: rest =>
    match askServer R place server name qtype with
    | .ok response => .ok response
    | .error err => askServers name qtype (some err) (place + 1) rest

variable (name : String)

/-- `mailQuery`. -/
def mailQuery (qtype : ℕ) : Except String Response :=
  match servers R with
  | .error err => .error err
  | .ok servers => askServers R name qtype none 0 servers

/-- The records an answer adds to `records`. -/
def Response.records (response : Response) : List MX :=
  response.answer.filterMap fun
    | .mx host pref => some ⟨host, pref⟩
    | _ => none

/-- `canonical` after the answer to a query for `name`. -/
def Response.canonical (response : Response) (name : String) : String :=
  response.answer.foldl (fun canonical rr =>
    match rr with
    | .cname owner target => if equalFold R.U owner name then target else canonical
    | _ => canonical) ""

/-- The answer to published records. -/
def published (records : List MX) : Except DNSFailure (List MX) :=
  if records.any (·.host = ".") then
    if records.length = 1 ∧ records.all (·.pref = 0) then
      .error ⟨"destination publishes Null MX and accepts no mail", true⟩
    else .error ⟨"invalid mixed Null MX response", false⟩
  else .ok records

/-- The loop over the two kinds of addresses. -/
def implicitMX (name : String) : Option String → List ℕ → Except DNSFailure (List MX)
  | lookupErr, [] =>
    match lookupErr with
    | some err => .error ⟨err, false⟩
    | none => .error ⟨"destination has no MX or address records", true⟩
  | lookupErr, kind :: kinds =>
    match mailQuery R name kind with
    | .error err => implicitMX name (some err) kinds
    | .ok addresses =>
      if addresses.answer.any (·.rrtype = kind) then .ok [⟨name, 0⟩]
      else implicitMX name lookupErr kinds

/-- The loop of `LookupMailMX`, with so many rounds left. -/
def followAliases : ℕ → List String → String → Except DNSFailure (List MX)
  | 0, _, _ => .error ⟨"DNS CNAME depth exceeded", false⟩
  | depth + 1, seen, name =>
    let key := toLower R.U name
    if key ∈ seen then .error ⟨"DNS CNAME loop", false⟩
    else
      match mailQuery R name typeMX with
      | .error err => .error ⟨err, false⟩
      | .ok response =>
        if response.rcode = rcodeNameError then
          .error ⟨"destination domain does not exist", true⟩
        else if response.records ≠ [] then published response.records
        else if response.canonical R name ≠ "" then
          followAliases depth (key :: seen) (response.canonical R name)
        else implicitMX R name none [typeA, typeAAAA]

/-- `LookupMailMX`. -/
def lookupMailMX (domain : String) : Except DNSFailure (List MX) :=
  if R.isDomainName domain then followAliases R 8 [] (R.fqdn domain)
  else .error ⟨"invalid destination domain", true⟩

/-! ### What the DNS says -/

/-- No server answers the query. -/
def Fails (qtype : ℕ) : Prop :=
  ∀ asked, servers R = .ok asked → ∀ (place : ℕ) (server : String), asked[place]? = some server →
    ∀ response, askServer R place server name qtype ≠ .ok response

/-- The name exists, and `response` says which MX records it has. -/
def Exists (response : Response) : Prop :=
  mailQuery R name typeMX = .ok response ∧ response.rcode ≠ rcodeNameError

/-- The name is an alias of `target`. -/
def Alias (target : String) : Prop :=
  ∃ response, Exists R name response ∧ response.records = [] ∧
    response.canonical R name = target ∧ target ≠ ""

/-- Along the aliases `via` one comes to `final`. -/
inductive Leads : String → List String → String → Prop
  | here {name : String} : Leads name [] name
  | follow {name next final : String} {via : List String} (h : Alias R name next) :
      Leads next via final → Leads name (name :: via) final

/-- No two of the names are the same. -/
def Distinct (names : List String) : Prop := (names.map (toLower R.U)).Nodup

/-- The name does not exist. -/
def Nonexistent : Prop :=
  ∃ response, mailQuery R name typeMX = .ok response ∧ response.rcode = rcodeNameError

def PublishesMX (records : List MX) : Prop :=
  ∃ response, Exists R name response ∧ response.records = records ∧ records ≠ []

/-- The name has no MX records and is no alias. -/
def NoData : Prop :=
  ∃ response, Exists R name response ∧ response.records = [] ∧ response.canonical R name = ""

def HasAddress (kind : ℕ) : Prop :=
  ∃ response, mailQuery R name kind = .ok response ∧ response.answer.any (·.rrtype = kind) = true

def NoAddress (kind : ℕ) : Prop :=
  ∃ response, mailQuery R name kind = .ok response ∧ response.answer.any (·.rrtype = kind) = false

/-- Mail for the name cannot be delivered, and never will. -/
def Undeliverable : Prop :=
  Nonexistent R name ∨ PublishesMX R name [⟨".", 0⟩] ∨
    NoData R name ∧ NoAddress R name typeA ∧ NoAddress R name typeAAAA

/-! ### Queries -/

section Queries

variable {R} {name : String} {qtype : ℕ}

theorem askServers_error {last : Option String} {place : ℕ} {asked : List String} :
    (∃ err, askServers R name qtype last place asked = .error err) ↔
      ∀ (i : ℕ) (server : String), asked[i]? = some server →
        ∀ response, askServer R (place + i) server name qtype ≠ .ok response := by
  induction asked generalizing last place with
  | nil => simp [askServers]
  | cons first rest ih =>
    rw [askServers]
    cases hfirst : askServer R place first name qtype with
    | ok response =>
      refine iff_of_false (by simp) fun h => ?_
      exact h 0 first rfl response hfirst
    | error err =>
      dsimp only
      rw [ih]
      constructor
      · rintro h (_ | i) server hserver response
        · cases hserver
          rw [Nat.add_zero, hfirst]
          exact nofun
        · rw [show place + (i + 1) = place + 1 + i by omega]
          exact h i server hserver response
      · intro h i server hserver response
        rw [show place + 1 + i = place + (i + 1) by omega]
        exact h (i + 1) server hserver response

/-- A query fails exactly if no server answers it. -/
theorem mailQuery_error : (∃ err, mailQuery R name qtype = .error err) ↔ Fails R name qtype := by
  unfold mailQuery Fails
  cases servers R with
  | error err => simp
  | ok asked =>
    dsimp only
    rw [askServers_error]
    simp

end Queries

/-! ### At the end of the aliases -/

/-- An error that is not permanent. -/
def Transient (result : Except DNSFailure (List MX)) : Prop :=
  ∃ reason, result = .error ⟨reason, false⟩

/-- A round of the loop at a name that is no alias. -/
def settle (name : String) : Except DNSFailure (List MX) :=
  match mailQuery R name typeMX with
  | .error err => .error ⟨err, false⟩
  | .ok response =>
    if response.rcode = rcodeNameError then
      .error ⟨"destination domain does not exist", true⟩
    else if response.records ≠ [] then published response.records
    else implicitMX R name none [typeA, typeAAAA]

section Settle

variable {R} {name : String}

theorem settle_fails (h : Fails R name typeMX) : Transient (settle R name) := by
  obtain ⟨err, herr⟩ := mailQuery_error.mpr h
  exact ⟨err, by rw [settle, herr]⟩

theorem settle_noData (h : NoData R name) :
    settle R name = implicitMX R name none [typeA, typeAAAA] := by
  obtain ⟨response, ⟨hquery, hcode⟩, hrecords, -⟩ := h
  rw [settle, hquery]
  dsimp only
  rw [if_neg hcode, if_neg (not_not.mpr hrecords)]

/-- What is asked for the addresses, and in which order. -/
theorem implicitMX_cases (R : Resolver) (name : String) (lookupErr : Option String)
    (kinds : List ℕ) :
    implicitMX R name lookupErr kinds = .ok [⟨name, 0⟩] ∧ (∃ kind ∈ kinds, HasAddress R name kind) ∨
    (∀ kind ∈ kinds, ¬ HasAddress R name kind) ∧
      ((lookupErr ≠ none ∨ ∃ kind ∈ kinds, Fails R name kind) ∧
          Transient (implicitMX R name lookupErr kinds) ∨
        (lookupErr = none ∧ ∀ kind ∈ kinds, NoAddress R name kind) ∧
          ∃ reason, implicitMX R name lookupErr kinds = .error ⟨reason, true⟩) := by
  induction kinds generalizing lookupErr with
  | nil =>
    refine .inr ⟨nofun, ?_⟩
    cases lookupErr with
    | some err => exact .inl ⟨.inl (Option.some_ne_none _), err, rfl⟩
    | none => exact .inr ⟨⟨rfl, nofun⟩, _, rfl⟩
  | cons kind kinds ih =>
    rw [implicitMX]
    cases hquery : mailQuery R name kind with
    | error err =>
      have hfails : Fails R name kind := mailQuery_error.mp ⟨err, hquery⟩
      have hnot : ¬ HasAddress R name kind := by
        rintro ⟨response, hok, -⟩
        rw [hquery] at hok
        cases hok
      dsimp only
      rcases ih (some err) with ⟨hok, haddr⟩ | ⟨hnone, hend⟩
      · exact .inl ⟨hok, haddr.imp fun _ h => ⟨mem_cons_of_mem _ h.1, h.2⟩⟩
      · refine .inr ⟨forall_mem_cons.mpr ⟨hnot, hnone⟩, ?_⟩
        rcases hend with ⟨-, htransient⟩ | ⟨⟨hsome, -⟩, -⟩
        · exact .inl ⟨.inr ⟨kind, mem_cons_self, hfails⟩, htransient⟩
        · cases hsome
    | ok addresses =>
      dsimp only
      split
      · next haddr =>
        exact .inl ⟨rfl, kind, mem_cons_self, addresses, hquery, haddr⟩
      · next hnone =>
        have hno : NoAddress R name kind := ⟨addresses, hquery, Bool.eq_false_iff.mpr hnone⟩
        have hnot : ¬ HasAddress R name kind := by
          rintro ⟨response, hok, haddr⟩
          rw [hquery] at hok
          cases hok
          exact hnone haddr
        rcases ih lookupErr with ⟨hok, haddr⟩ | ⟨hnone, hend⟩
        · exact .inl ⟨hok, haddr.imp fun _ h => ⟨mem_cons_of_mem _ h.1, h.2⟩⟩
        · refine .inr ⟨forall_mem_cons.mpr ⟨hnot, hnone⟩, ?_⟩
          refine hend.imp (.imp_left (.imp_right ?_)) (.imp_left (.imp_right ?_))
          · exact fun h => h.imp fun _ h => ⟨mem_cons_of_mem _ h.1, h.2⟩
          · exact fun h => forall_mem_cons.mpr ⟨hno, h⟩

section

variable (halias : ∀ next, ¬ Alias R name next)

include halias

theorem noData_of_not_alias {response : Response}
    (h : Exists R name response) (hrecords : response.records = []) : NoData R name := by
  refine ⟨response, h, hrecords, ?_⟩
  by_contra hne
  exact halias _ ⟨response, h, hrecords, rfl, hne⟩

/-- A settled name gives a permanent error only if mail cannot be delivered. -/
theorem undeliverable_of_settle {e : DNSFailure}
    (h : settle R name = .error e) (he : e.permanent = true) : Undeliverable R name := by
  unfold settle at h
  cases hquery : mailQuery R name typeMX with
  | error err =>
    rw [hquery] at h
    cases h
    cases he
  | ok response =>
    rw [hquery] at h
    dsimp only at h
    split at h
    · next hcode => exact .inl ⟨response, hquery, hcode⟩
    next hcode =>
    split at h
    · next hrecords =>
      refine .inr (.inl ⟨response, ⟨hquery, hcode⟩, ?_, cons_ne_nil _ _⟩)
      unfold published at h
      split at h
      · next hnull =>
        split at h
        · next hone =>
          -- one record, with host `.` and preference 0
          obtain ⟨mx, hmx⟩ := length_eq_one_iff.mp hone.1
          rw [hmx] at hnull hone ⊢
          obtain ⟨host, pref⟩ := mx
          simp only [any_cons, any_nil, Bool.or_false, decide_eq_true_eq] at hnull
          simp only [all_cons, all_nil, Bool.and_true, decide_eq_true_eq] at hone
          rw [hnull, hone.2]
        · cases h
          cases he
      · cases h
    · next hrecords =>
      have hnodata := noData_of_not_alias halias ⟨hquery, hcode⟩ (not_not.mp hrecords)
      rcases implicitMX_cases R name none [typeA, typeAAAA] with
        ⟨hok, -⟩ | ⟨-, ⟨-, reason, htransient⟩ | ⟨⟨-, hnone⟩, -⟩⟩
      · rw [hok] at h
        cases h
      · rw [htransient] at h
        cases h
        cases he
      · exact .inr (.inr ⟨hnodata, hnone _ (by simp), hnone _ (by simp)⟩)

/-- What hosts a settled name gives. -/
theorem hosts_of_settle {mxs : List MX}
    (h : settle R name = .ok mxs) :
    PublishesMX R name mxs ∨ mxs = [⟨name, 0⟩] ∧ NoData R name ∧
      ∃ kind ∈ [typeA, typeAAAA], HasAddress R name kind := by
  unfold settle at h
  cases hquery : mailQuery R name typeMX with
  | error err =>
    rw [hquery] at h
    cases h
  | ok response =>
    rw [hquery] at h
    dsimp only at h
    split at h
    · cases h
    next hcode =>
    split at h
    · next hrecords =>
      unfold published at h
      split at h
      · split at h <;> cases h
      · cases h
        exact .inl ⟨response, ⟨hquery, hcode⟩, rfl, hrecords⟩
    · next hrecords =>
      have hnodata := noData_of_not_alias halias ⟨hquery, hcode⟩ (not_not.mp hrecords)
      rcases implicitMX_cases R name none [typeA, typeAAAA] with
        ⟨hok, haddr⟩ | ⟨-, ⟨-, reason, htransient⟩ | ⟨-, reason, hpermanent⟩⟩
      · rw [hok] at h
        cases h
        exact .inr ⟨rfl, hnodata, haddr⟩
      · rw [htransient] at h
        cases h
      · rw [hpermanent] at h
        cases h

end

end Settle

/-! ### Along the aliases -/

section Aliases

variable {R} {name next final : String} {via : List String}

theorem Alias.unique (h : Alias R name next) {next' : String} (h' : Alias R name next') :
    next = next' := by
  obtain ⟨response, ⟨hquery, -⟩, -, rfl, -⟩ := h
  obtain ⟨response', ⟨hquery', -⟩, -, rfl, -⟩ := h'
  rw [hquery] at hquery'
  cases hquery'
  rfl

theorem not_alias_of_fails (h : Fails R name typeMX) (next : String) : ¬ Alias R name next := by
  rintro ⟨response, ⟨hquery, -⟩, -⟩
  obtain ⟨err, herr⟩ := mailQuery_error.mpr h
  rw [herr] at hquery
  cases hquery

theorem not_alias_of_noData (h : NoData R name) (next : String) : ¬ Alias R name next := by
  rintro ⟨response, ⟨hquery, -⟩, -, rfl, hne⟩
  obtain ⟨response', ⟨hquery', -⟩, -, hnone⟩ := h
  rw [hquery] at hquery'
  cases hquery'
  exact hne hnone

/-- All chains of aliases from a name are part of the one that ends. -/
theorem Leads.initial (h : Leads R name via final) (hend : ∀ next, ¬ Alias R final next)
    {via' : List String} {final' : String} (h' : Leads R name via' final') :
    via' ++ [final'] <+: via ++ [final] := by
  induction h generalizing via' with
  | here =>
    cases h' with
    | here => exact prefix_rfl
    | follow halias => exact absurd halias (hend _)
  | follow halias _ ih =>
    cases h' with
    | here => exact ⟨_, rfl⟩
    | follow halias' hleads =>
      cases halias.unique halias'
      exact cons_prefix_cons.mpr ⟨rfl, ih hend hleads⟩

variable {depth : ℕ} {seen : List String}

/-- A round of the loop at an alias. -/
theorem followAliases_alias (hseen : toLower R.U name ∉ seen) (h : Alias R name next) :
    followAliases R (depth + 1) seen name =
      followAliases R depth (toLower R.U name :: seen) next := by
  obtain ⟨response, ⟨hquery, hcode⟩, hrecords, rfl, hne⟩ := h
  rw [followAliases, if_neg hseen, hquery]
  dsimp only
  rw [if_neg hcode, if_neg (not_not.mpr hrecords), if_pos hne]

/-- A round of the loop at another name. -/
theorem followAliases_settle (hseen : toLower R.U name ∉ seen) (h : ∀ next, ¬ Alias R name next) :
    followAliases R (depth + 1) seen name = settle R name := by
  rw [followAliases, settle, if_neg hseen]
  cases hquery : mailQuery R name typeMX with
  | error err => rfl
  | ok response =>
    dsimp only
    by_cases hcode : response.rcode = rcodeNameError
    · rw [if_pos hcode, if_pos hcode]
    rw [if_neg hcode, if_neg hcode]
    by_cases hrecords : response.records ≠ []
    · rw [if_pos hrecords, if_pos hrecords]
    rw [if_neg hrecords, if_neg hrecords, if_neg]
    exact fun hne => h _ ⟨response, ⟨hquery, hcode⟩, not_not.mp hrecords, rfl, hne⟩

/-- The names are distinct, and none was seen before. -/
def Fresh (R : Resolver) (seen names : List String) : Prop :=
  Distinct R names ∧ ∀ name ∈ names, toLower R.U name ∉ seen

theorem fresh_cons {names : List String} :
    Fresh R seen (name :: names) ↔
      toLower R.U name ∉ seen ∧ Fresh R (toLower R.U name :: seen) names := by
  rw [Fresh, Fresh, forall_mem_cons]
  simp only [Distinct, map_cons, nodup_cons, mem_map, mem_cons, not_or]
  constructor
  · rintro ⟨⟨hne, hnodup⟩, hseen, hrest⟩
    exact ⟨hseen, hnodup, fun n hn => ⟨fun heq => hne ⟨n, hn, heq⟩, hrest n hn⟩⟩
  · rintro ⟨hseen, hnodup, hrest⟩
    exact ⟨⟨fun ⟨n, hn, heq⟩ => (hrest n hn).1 heq, hnodup⟩, hseen, fun n hn => (hrest n hn).2⟩

/-- The loop comes to a name that is no alias and settles there, or it gets stuck
on the way. -/
theorem followAliases_cases (depth : ℕ) (seen : List String) (name : String) :
    (∃ via final, Leads R name via final ∧ (∀ next, ¬ Alias R final next) ∧
      via.length < depth ∧ Fresh R seen (via ++ [final]) ∧
      followAliases R depth seen name = settle R final) ∨
    Transient (followAliases R depth seen name) := by
  induction depth generalizing seen name with
  | zero => exact .inr ⟨_, rfl⟩
  | succ depth ih =>
    by_cases hseen : toLower R.U name ∈ seen
    · refine .inr ⟨"DNS CNAME loop", ?_⟩
      rw [followAliases, if_pos hseen]
    by_cases halias : ∃ next, Alias R name next
    · obtain ⟨next, halias⟩ := halias
      rw [followAliases_alias hseen halias]
      refine (ih (toLower R.U name :: seen) next).imp_left ?_
      rintro ⟨via, final, hleads, hend, hlength, hfresh, heq⟩
      exact ⟨name :: via, final, .follow halias hleads, hend, Nat.succ_lt_succ hlength,
        fresh_cons.mpr ⟨hseen, hfresh⟩, heq⟩
    · have hend := not_exists.mp halias
      refine .inl ⟨[], name, .here, hend, Nat.succ_pos _, ?_, followAliases_settle hseen hend⟩
      exact fresh_cons.mpr ⟨hseen, nodup_nil, nofun⟩

end Aliases

/-! ### The classification -/

/-- What the results of a lookup mean. -/
structure Exact (R : Resolver) (domain : String) : Prop where
  permanent {e : DNSFailure} : lookupMailMX R domain = .error e → e.permanent = true →
    R.isDomainName domain = false ∨
      ∃ via final, Leads R (R.fqdn domain) via final ∧ Undeliverable R final
  hosts {mxs : List MX} : lookupMailMX R domain = .ok mxs → mxs ≠ [] ∧
    ∃ via final, Leads R (R.fqdn domain) via final ∧
      (PublishesMX R final mxs ∨ mxs = [⟨final, 0⟩] ∧ NoData R final ∧
        ∃ kind ∈ [typeA, typeAAAA], HasAddress R final kind)
  failure {via : List String} {final : String} : R.isDomainName domain = true →
    Leads R (R.fqdn domain) via final → Fails R final typeMX →
    Transient (lookupMailMX R domain)
  addressFailure {via : List String} {final : String} {kind : ℕ} : R.isDomainName domain = true →
    Leads R (R.fqdn domain) via final → NoData R final → kind ∈ [typeA, typeAAAA] →
    Fails R final kind → Transient (lookupMailMX R domain) ∨
      lookupMailMX R domain = .ok [⟨final, 0⟩] ∧
        ∃ other ∈ [typeA, typeAAAA], HasAddress R final other
  loop {via : List String} {final : String} : R.isDomainName domain = true →
    Leads R (R.fqdn domain) via final → ¬ Distinct R (via ++ [final]) →
    Transient (lookupMailMX R domain)
  long {via : List String} {final : String} : R.isDomainName domain = true →
    Leads R (R.fqdn domain) via final → 8 ≤ via.length → Transient (lookupMailMX R domain)

section Classification

variable {R} {domain final : String} {via : List String}

theorem lookupMailMX_of_name (h : R.isDomainName domain = true) :
    lookupMailMX R domain = followAliases R 8 [] (R.fqdn domain) := by
  rw [lookupMailMX, if_pos h]

/-- A lookup settles at the name that is no alias, or it gets stuck. -/
theorem lookupMailMX_settles (hdomain : R.isDomainName domain = true)
    (h : Leads R (R.fqdn domain) via final) (hend : ∀ next, ¬ Alias R final next) :
    lookupMailMX R domain = settle R final ∨ Transient (lookupMailMX R domain) := by
  rw [lookupMailMX_of_name hdomain]
  refine (followAliases_cases 8 [] (R.fqdn domain)).imp_left ?_
  rintro ⟨via', final', hleads, hend', -, -, heq⟩
  have hnames := (h.initial hend hleads).eq_of_length
    (le_antisymm (h.initial hend hleads).length_le (hleads.initial hend' h).length_le)
  rw [heq, (append_inj' hnames rfl).2 |> singleton_inj.mp]

/-- A lookup gets stuck on a loop and on a chain that is too long. -/
theorem lookupMailMX_stuck (hdomain : R.isDomainName domain = true)
    (h : Leads R (R.fqdn domain) via final)
    (hstuck : ¬ Distinct R (via ++ [final]) ∨ 8 ≤ via.length) :
    Transient (lookupMailMX R domain) := by
  rw [lookupMailMX_of_name hdomain]
  refine (followAliases_cases 8 [] (R.fqdn domain)).resolve_left ?_
  rintro ⟨via', final', hleads, hend, hlength, hfresh, -⟩
  have hinitial := hleads.initial hend h
  rcases hstuck with hnot | hlong
  · exact hnot (hfresh.1.sublist (hinitial.sublist.map _))
  · have hle := hinitial.length_le
    rw [length_append, length_append, length_singleton, length_singleton]
      at hle
    omega

/-- **Mail routing classifies what the DNS says.** -/
theorem lookupMailMX_exact (R : Resolver) (domain : String) : Exact R domain where
  permanent {e} h he := by
    by_cases hdomain : R.isDomainName domain = true
    · right
      rw [lookupMailMX_of_name hdomain] at h
      rcases followAliases_cases 8 [] (R.fqdn domain) with
        ⟨via, final, hleads, hend, -, -, heq⟩ | ⟨reason, htransient⟩
      · exact ⟨via, final, hleads, undeliverable_of_settle hend (heq ▸ h) he⟩
      · rw [htransient] at h
        cases h
        cases he
    · exact .inl (Bool.eq_false_iff.mpr hdomain)
  hosts {mxs} h := by
    by_cases hdomain : R.isDomainName domain = true
    · rw [lookupMailMX_of_name hdomain] at h
      rcases followAliases_cases 8 [] (R.fqdn domain) with
        ⟨via, final, hleads, hend, -, -, heq⟩ | ⟨reason, htransient⟩
      · have hhosts := hosts_of_settle hend (heq ▸ h)
        refine ⟨?_, via, final, hleads, hhosts⟩
        rcases hhosts with ⟨-, -, -, hne⟩ | ⟨rfl, -⟩
        · exact hne
        · exact cons_ne_nil _ _
      · rw [htransient] at h
        cases h
    · rw [lookupMailMX, if_neg hdomain] at h
      cases h
  failure hdomain h hfails := by
    rcases lookupMailMX_settles hdomain h (not_alias_of_fails hfails) with heq | htransient
    · exact heq ▸ settle_fails hfails
    · exact htransient
  addressFailure {via final kind} hdomain h hnodata hkind hfails := by
    rcases lookupMailMX_settles hdomain h (not_alias_of_noData hnodata) with heq | htransient
    · rw [heq, settle_noData hnodata]
      rcases implicitMX_cases R final none [typeA, typeAAAA] with
        hfound | ⟨-, ⟨-, htransient⟩ | ⟨⟨-, hnone⟩, -⟩⟩
      · exact .inr hfound
      · exact .inl htransient
      · -- a query that fails is not answered
        obtain ⟨response, hok, -⟩ := hnone kind hkind
        obtain ⟨err, herr⟩ := mailQuery_error.mpr hfails
        rw [hok] at herr
        cases herr
    · exact .inl htransient
  loop hdomain h hloop := lookupMailMX_stuck hdomain h (.inl hloop)
  long hdomain h hlong := lookupMailMX_stuck hdomain h (.inr hlong)

/-- A resolver that knows one domain, by its IPv6 address only, and whose only
server does not answer queries for IPv4 addresses. -/
def sixOnly : Resolver where
  U := asciiTables
  isDomainName _ := true
  fqdn name := name
  rcodeToString _ := ""
  mailServers := ["[::1]:53"]
  clientConfig := .error ""
  exchange _ _ _ _ qtype :=
    if qtype = typeA then .error "i/o timeout"
    else if qtype = typeAAAA then .ok { rcode := rcodeSuccess, answer := [.other typeAAAA] }
    else .ok { rcode := rcodeSuccess }

/-- A query fails, and there is no error. -/
theorem one_family_fails :
    Leads sixOnly (sixOnly.fqdn "b.test.") [] "b.test." ∧ NoData sixOnly "b.test." ∧
    Fails sixOnly "b.test." typeA ∧ lookupMailMX sixOnly "b.test." = .ok [⟨"b.test.", 0⟩] :=
  ⟨.here, ⟨{ rcode := rcodeSuccess }, ⟨rfl, by decide⟩, rfl, rfl⟩,
    mailQuery_error.mp ⟨"i/o timeout", rfl⟩, rfl⟩

end Classification

end EmailService.MailRouting
