/-
EmailService/Domains.lean

The domain of an envelope address, as each component that acts on it finds it:
the relay check of the SMTP session (internal/smtpd/server.go, recipients.go),
the compliance rules, the domain scope of policies
(internal/policy/manager.go), local delivery, the route table and the grouping
of remote recipients.

Every component has its own way to cut an address: at the last '@' after
trimming, at the first '@', or at the only one.  `one_domain_iff` says for
which addresses they find the same domain.
-/
import EmailService.Message

namespace EmailService

open GoStrings List String

/-! ### The SMTP session -/

/-- `smtp.SMTPError`. -/
structure SMTPError where
  code : ℕ
  enhancedCode : ℕ × ℕ × ℕ := (0, 0, 0)
  message : String
  deriving DecidableEq

/-- What the recipient directory answers to one request. -/
inductive DirectoryReply
  | badRequest
  | unreachable
  /-- the status, and the recipients if the body could be decoded -/
  | response (status : ℕ) (recipients : Option (List String))

/-- What `Rcpt` reads of the configuration. -/
structure SessionConfig where
  localDomains : List String := []
  maxRecipients : ℤ := 0
  suppressedRecipients : List String := []
  validateRecipients : Bool := false
  aliases : List (String × List String) := []

/-- `Session`, with the answers of the components it asks. -/
structure Session where
  tables : CaseTables
  config : SessionConfig
  authenticated : Bool := false
  relayAuthIP : Bool := false
  /-- greylisting, if enabled: the time to wait, for an address that has to -/
  greylisting : Option (String → Option String) := none
  /-- the recipient directory, if configured -/
  directory : Option (String → DirectoryReply) := none
  /-- the user store, if present: the address of a known recipient -/
  validator : Option (String → Option String) := none
  toAddrs : List String := []
  dsnRecipients : String → RcptOptions := fun _ => {}

namespace Session

/-- `addressDomain` of the session. -/
def addressDomain (U : CaseTables) (addr : String) : String :=
  match afterLast (trim (trimSpace addr) "<>") '@' with
  | none => ""
  | some domain => toLower U domain

variable (s : Session) (address : String)

/-- The address belongs to a domain of this server. -/
def isLocal : Bool :=
  s.config.localDomains.any fun d => equalFold s.tables (addressDomain s.tables address) d

/-- `isRelayPermitted`. -/
def isRelayPermitted : Bool :=
  s.isLocal address || s.authenticated || s.relayAuthIP

/-- What `resolveRecipient` makes of the directory's reply. -/
def fromDirectory (U : CaseTables) : DirectoryReply → Except SMTPError (List String)
  | .badRequest =>
    .error { code := 451, message := "Invalid recipient directory configuration" }
  | .unreachable => .error { code := 451, message := "Recipient directory unavailable" }
  | .response status recipients =>
    if status = 404 then .error { code := 550, message := "Unknown or disabled recipient" }
    else if status ≠ 200 then
      .error { code := 451, message := "Recipient directory unavailable" }
    else
      match recipients with
      | none => .error { code := 451, message := "Invalid recipient directory response" }
      | some targets =>
        if targets = [] ∨ 1000 < targets.length then
          .error { code := 451, message := "Invalid recipient directory response" }
        else if targets.any fun target =>
            addressDomain U target = "" || target.toList.any fun c => c = '\r' || c = '\n' then
          .error { code := 451, message := "Invalid directory recipient" }
        else .ok targets

/-- The part of `resolveRecipient` for an address that is no alias. -/
def validated : Except SMTPError (List String) :=
  if s.isLocal address && s.config.validateRecipients then
    match s.directory with
    | some ask => fromDirectory s.tables (ask address)
    | none =>
      match s.validator with
      | none => .error { code := 451, message := "Recipient directory unavailable" }
      | some users =>
        match users address with
        | none =>
          .error
            { code := 550
              enhancedCode := (5, 1, 1)
              message := "Unknown or disabled recipient" }
        | some email => .ok [email]
  else .ok [address]

/-- `resolveRecipient`, with the keys on the way to this address and the number
of further keys that may join them. -/
def resolve (s : Session) : ℕ → List String → String → Except SMTPError (List String)
  | 0, _, _ => .error { code := 554, message := "Alias routing loop" }
  | depth + 1, seen, address =>
    let key := toLower s.tables address
    if key ∈ seen then .error { code := 554, message := "Alias routing loop" }
    else
      match s.config.aliases.lookup key with
      | some targets => (targets.mapM (s.resolve depth (key :: seen))).map flatten
      | none => s.validated address

/-- `resolveRecipient`, as `Rcpt` calls it; more than 20 keys are a loop. -/
def resolveRecipient : Except SMTPError (List String) :=
  s.resolve 21 [] address

/-- The loop of `Rcpt` over the resolved recipients. -/
def addTargets (opts : Option RcptOptions) : Session → List String → Session × Option SMTPError
  | s, [] => (s, none)
  | s, target :: targets =>
    if s.config.suppressedRecipients.any fun blocked => equalFold s.tables blocked target then
      (s, some { code := 550, message := "Recipient suppressed" })
    else
      match opts with
      | none => addTargets opts s targets
      | some o =>
        addTargets opts { s with dsnRecipients := Function.update s.dsnRecipients target o } targets

/-- The wait greylisting asks of this session for an address. -/
def greylisted : Option String :=
  match s.greylisting with
  | none => none
  | some check => if s.authenticated then none else check address

/-- `Rcpt`. -/
def rcpt (opts : Option RcptOptions) : Session × Option SMTPError :=
  if !s.isRelayPermitted address then
    (s, some { code := 554, enhancedCode := (5, 7, 1), message := "Relay access denied" })
  else
    match s.greylisted address with
    | some wait =>
      (s, some { code := 451
                 enhancedCode := (4, 7, 1)
                 message := "Greylisted, please retry in " ++ wait })
    | none =>
      match s.resolveRecipient address with
      | .error err => (s, some err)
      | .ok targets =>
        if 0 < s.config.maxRecipients ∧
            s.config.maxRecipients < (s.toAddrs.length + targets.length : ℤ) then
          (s, some { code := 452, message := "Too many expanded recipients" })
        else
          match addTargets opts s targets with
          | (s, some err) => (s, some err)
          | (s, none) => ({ s with toAddrs := s.toAddrs ++ targets }, none)

end Session

/-! ### Policy scopes -/

/-- The type of a scope; absent, it is `global`. -/
inductive ScopeType
  | global
  | user
  | group
  | domain
  | direction
  | unknown
  deriving DecidableEq

/-- The direction a scope names. -/
inductive Direction
  | inbound
  | outbound
  | internal
  | unknown
  deriving DecidableEq

/-- `PolicyScope`. -/
structure PolicyScope where
  type : ScopeType := .global
  users : List String := []
  groups : List String := []
  domains : List String := []
  direction : Direction := .unknown

/-- What `matchesScope` reads of an `EmailContext`.  `fromDomain` is what
`GetFromDomain` makes of the sender, which it reads as a header address. -/
structure EmailContext where
  fromAddr : String := ""
  fromDomain : String := ""
  toAddrs : List String := []
  senderGroups : List String := []
  recipientGroups : List String := []
  isInbound : Bool := false
  isOutbound : Bool := false
  isInternal : Bool := false

/-- The domain of a recipient in `matchesScope`: the second part of
`strings.SplitN(rcpt, "@", 2)`. -/
def policyDomain (rcpt : String) : Option String := (cut rcpt '@').map Prod.snd

/-- `matchesScope`. -/
def matchesScope (U : CaseTables) (scope : PolicyScope) (ctx : EmailContext) : Bool :=
  match scope.type with
  | .global => true
  | .user => scope.users.any fun user => ctx.fromAddr = user || ctx.toAddrs.contains user
  | .group =>
    scope.groups.any fun group =>
      ctx.senderGroups.contains group || ctx.recipientGroups.contains group
  | .domain =>
    scope.domains.contains ctx.fromDomain ||
      ctx.toAddrs.any fun rcpt =>
        (policyDomain rcpt).any fun d => scope.domains.any fun domain => equalFold U domain d
  | .direction =>
    match scope.direction with
    | .inbound => ctx.isInbound
    | .outbound => ctx.isOutbound
    | .internal => ctx.isInternal
    | .unknown => false
  | .unknown => false

/-! ### Agreement -/

/-- The address is one domain to all components: each of them works with the
string of the relay check, or compares its own string with it under
`EqualFold`. -/
structure Agree (U : CaseTables) (address : String) : Prop where
  compliance : complianceDomain U address = Session.addressDomain U address
  policy : ∃ d, policyDomain address = some d ∧
    equalFold U (Session.addressDomain U address) d = true
  localDelivery : toLower U (extractDomain address) = Session.addressDomain U address
  explicitRoute : equalFold U (Session.addressDomain U address) (extractDomain address) = true
  remote : (addressDomain address).map (toLower U) = some (Session.addressDomain U address)
  route : toLower U (trimSuffix (toLower U (extractDomain address)) ".") =
    Session.addressDomain U address

/-- Exactly one '@'; a domain that ends neither in a dot nor in a space or an
angle bracket; and every letter of the domain is `EqualFold` to its lower
case. -/
def PlainAddress (U : CaseTables) (address : String) : Prop :=
  ∃ mailbox domain : String, address.toList = mailbox.toList ++ '@' :: domain.toList ∧
    '@' ∉ mailbox.toList ∧ '@' ∉ domain.toList ∧
    (∀ c ∈ domain.toList.getLast?, c ≠ '.' ∧ isSpace c = false ∧ c ≠ '<' ∧ c ≠ '>') ∧
    ∀ c ∈ domain.toList, U.sameFold (U.toLower c) c = true

/-- What is used of the case tables: lower case is final, and nothing but the
dot is a dot in lower case. -/
structure Settled (U : CaseTables) : Prop where
  idem : ∀ c, U.toLower (U.toLower c) = U.toLower c
  dot : ∀ c, U.toLower c = '.' → c = '.'

section Cutting

variable {U : CaseTables} {address mailbox domain : String}

theorem addressDomain_eq_some :
    addressDomain address = some domain ↔
      ∃ mailbox : String, address.toList = mailbox.toList ++ '@' :: domain.toList ∧
        '@' ∉ mailbox.toList ∧ '@' ∉ domain.toList := by
  constructor
  · intro h
    unfold addressDomain at h
    split at h
    · rename_i mailbox d hsplit
      cases h
      exact ⟨mailbox, split_eq_pair.mp hsplit⟩
    · cases h
  · rintro ⟨mailbox, h⟩
    rw [addressDomain, split_eq_pair.mpr h]

/-- What `addressDomain` of the session leaves of the text after the '@'. -/
def trimmedEnd (domain : String) : String :=
  ofList ((domain.toList.rdropWhile isSpace).rdropWhile "<>".toList.contains)

section

variable (h : address.toList = mailbox.toList ++ '@' :: domain.toList)

include h

theorem session_addressDomain (hdomain : '@' ∉ domain.toList) :
    Session.addressDomain U address = toLower U (trimmedEnd domain) := by
  have hspace := trimFunc_toList h (p := isSpace) (by decide)
  have htrim := trimFunc_toList hspace (p := "<>".toList.contains) (by decide)
  rw [← toList_ofList (l := dropWhile _ _),
    ← toList_ofList (l := rdropWhile _ _)] at htrim
  have hend : '@' ∉ (trimmedEnd domain).toList := by
    rw [trimmedEnd, toList_ofList]
    intro hmem
    exact hdomain (( rdropWhile_prefix _ _).subset
      (( rdropWhile_prefix _ _).subset hmem))
  have hlast : afterLast (trim (trimSpace address) "<>") '@' = some (trimmedEnd domain) :=
    afterLast_eq htrim hend
  rw [Session.addressDomain, hlast]

theorem complianceDomain_at (hmailbox : '@' ∉ mailbox.toList) :
    complianceDomain U address = toLower U (trimSuffix domain ".") := by
  rw [complianceDomain, cut_eq h hmailbox]

theorem policyDomain_at (hmailbox : '@' ∉ mailbox.toList) : policyDomain address = some domain := by
  rw [policyDomain, cut_eq h hmailbox]
  rfl

end

/-- The trimming of the session leaves a text alone just when it does not end
in a space or a bracket. -/
theorem trimmedEnd_eq_self :
    trimmedEnd domain = domain ↔
      ∀ c ∈ domain.toList.getLast?, isSpace c = false ∧ c ≠ '<' ∧ c ≠ '>' := by
  have hstep : ∀ {p : Char → Bool} {l : List Char} {c : Char},
      (l ++ [c]).rdropWhile p = l ++ [c] ↔ p c = false := by
    intro p l c
    rw [rdropWhile_eq_self_iff]
    simp
  rw [trimmedEnd, ← toList_inj, toList_ofList]
  rcases eq_nil_or_concat domain.toList with hnil | ⟨l, c, hl⟩
  · simp [hnil]
  · rw [hl, concat_eq_append, getLast?_concat]
    constructor
    · intro h
      -- both cuts are beginnings of the text, so neither took anything
      have hspace : (l ++ [c]).rdropWhile isSpace = l ++ [c] := by
        apply ( rdropWhile_prefix _ _).eq_of_length_le
        have hle := ( rdropWhile_prefix "<>".toList.contains
          ((l ++ [c]).rdropWhile isSpace)).length_le
        rwa [h] at hle
      rw [hspace] at h
      have hbracket := hstep.mp h
      rintro _ ⟨rfl⟩
      refine ⟨hstep.mp hspace, ?_, ?_⟩ <;> rintro rfl <;> exact absurd hbracket (by decide)
    · intro h
      obtain ⟨hspace, hlt, hgt⟩ := h c rfl
      rw [hstep.mpr hspace, hstep]
      simp [hlt, hgt]

theorem trimSuffix_dot_eq_self :
    trimSuffix domain "." = domain ↔ ∀ c ∈ domain.toList.getLast?, c ≠ '.' := by
  have hsuffix : hasSuffix domain "." = true ↔ domain.toList.getLast? = some '.' := by
    rw [hasSuffix, isSuffixOf_iff_suffix, getLast?_eq_some_iff]
    exact exists_congr fun _ => eq_comm
  by_cases h : hasSuffix domain "."
  · have hlast := hsuffix.mp h
    have hpos : 0 < domain.toList.length := length_pos_of_mem (mem_of_getLast? hlast)
    refine iff_of_false (fun heq => ?_) fun hall => hall '.' hlast rfl
    have hlen := congrArg (fun s => s.toList.length) heq
    simp [trimSuffix, h] at hlen
    omega
  · rw [trimSuffix, if_neg h]
    refine iff_of_true rfl fun c hc hdot => h (hsuffix.mpr ?_)
    rw [← hdot]
    exact hc

/-- Lower-casing keeps the number of runes, so only the text itself gives as
many as the text. -/
theorem eq_self_of_toLower {part : String} (hpart : part.toList <+: domain.toList)
    (h : toLower U part = toLower U domain) : part = domain := by
  have hlen := congrArg (fun s => s.toList.length) h
  rw [length_toLower, length_toLower] at hlen
  exact toList_inj.mp (hpart.eq_of_length hlen)

theorem trimmedEnd_prefix : (trimmedEnd domain).toList <+: domain.toList := by
  rw [trimmedEnd, toList_ofList]
  exact ( rdropWhile_prefix _ _).trans ( rdropWhile_prefix _ _)

theorem trimSuffix_prefix {tail : String} : (trimSuffix domain tail).toList <+: domain.toList := by
  unfold trimSuffix
  split
  · rw [toList_ofList]
    exact take_prefix _ _
  · exact prefix_rfl

/-- Trimming a dot and lower-casing can be exchanged. -/
theorem trimSuffix_toLower (hU : Settled U) (h : trimSuffix domain "." = domain) :
    trimSuffix (toLower U domain) "." = toLower U domain := by
  rw [trimSuffix_dot_eq_self] at h ⊢
  intro c hc hdot
  rw [toList_toLower, getLast?_map] at hc
  obtain ⟨d, hd, rfl⟩ := Option.mem_map.mp hc
  exact h d hd (hU.dot d hdot)

theorem toLower_toLower (hU : Settled U) (s : String) :
    toLower U (toLower U s) = toLower U s := by
  rw [← toList_inj]
  simp [hU.idem]

end Cutting

section Agreement

variable {U : CaseTables} {address : String}

theorem Agree.plainAddress (h : Agree U address) : PlainAddress U address := by
  obtain ⟨domain, hsome, hlower⟩ := Option.map_eq_some_iff.mp h.remote
  obtain ⟨mailbox, hat, hmailbox, hdomain⟩ := addressDomain_eq_some.mp hsome
  have hrelay := session_addressDomain (U := U) hat hdomain
  have hextract : extractDomain address = domain := by rw [extractDomain, hsome]; rfl
  have htrim : trimmedEnd domain = domain :=
    eq_self_of_toLower trimmedEnd_prefix (hrelay.symm.trans hlower.symm)
  have hdot : trimSuffix domain "." = domain := by
    refine eq_self_of_toLower trimSuffix_prefix (U := U) ?_
    rw [← complianceDomain_at hat hmailbox, h.compliance, hlower]
  refine ⟨mailbox, domain, hat, hmailbox, hdomain, fun c hc => ?_, ?_⟩
  · exact ⟨trimSuffix_dot_eq_self.mp hdot c hc, trimmedEnd_eq_self.mp htrim c hc⟩
  · have hfold := h.explicitRoute
    rw [hextract, ← hlower] at hfold
    exact equalFold_toLower.mp hfold

theorem PlainAddress.agree (hU : Settled U) (h : PlainAddress U address) : Agree U address := by
  obtain ⟨mailbox, domain, hat, hmailbox, hdomain, hlast, hfold⟩ := h
  have htrim : trimmedEnd domain = domain := trimmedEnd_eq_self.mpr fun c hc => (hlast c hc).2
  have hdot : trimSuffix domain "." = domain :=
    trimSuffix_dot_eq_self.mpr fun c hc => (hlast c hc).1
  have hrelay : Session.addressDomain U address = toLower U domain := by
    rw [session_addressDomain hat hdomain, htrim]
  have hsome : addressDomain address = some domain :=
    addressDomain_eq_some.mpr ⟨mailbox, hat, hmailbox, hdomain⟩
  have hextract : extractDomain address = domain := by rw [extractDomain, hsome]; rfl
  have hequal : equalFold U (toLower U domain) domain = true := equalFold_toLower.mpr hfold
  constructor
  · rw [complianceDomain_at hat hmailbox, hdot, hrelay]
  · exact ⟨domain, policyDomain_at hat hmailbox, hrelay ▸ hequal⟩
  · rw [hextract, hrelay]
  · rw [hextract, hrelay, hequal]
  · rw [hsome, hrelay]
    rfl
  · rw [hextract, trimSuffix_toLower hU hdot, toLower_toLower hU, hrelay]

/-- The group of a key: the recipients whose domain it is in lower case. -/
theorem members_groupByDomain (U : CaseTables) (recipients : List String) (key : String) :
    (groupByDomain U recipients).members key =
      recipients.filter fun rcpt => (addressDomain rcpt).map (toLower U) = some key := by
  unfold groupByDomain
  induction recipients using reverseRecOn with
  | nil => rfl
  | append_singleton recipients rcpt ih =>
    rw [foldl_append, filter_append, ← ih]
    rcases hd : addressDomain rcpt with - | domain
    · simp [hd]
    · by_cases hkey : key = toLower U domain
      · subst hkey
        simp [hd, Groups.add]
      · simp [hd, Groups.add, hkey, Ne.symm hkey]

/-- Whatever is configured for the domain the relay check saw reaches the
address: compliance rules, policies, explicit routes, routes, and the group of
its remote recipients. -/
structure Governed (U : CaseTables) (address : String) : Prop where
  compliance : ∀ (rules : List Rule) (sender : String) (recipients : List String), ∀ r ∈ rules,
    toLower U (trimSuffix r.domain ".") = Session.addressDomain U address →
    r.scope ≠ .sender → address ∈ recipients → r ∈ evaluate U rules sender recipients
  policy : ∀ (scope : PolicyScope) (ctx : EmailContext), scope.type = .domain →
    Session.addressDomain U address ∈ scope.domains → address ∈ ctx.toAddrs →
    matchesScope U scope ctx = true
  localDelivery : ∀ qm : QueueManager, qm.tables = U →
    Session.addressDomain U address ∈ qm.localDomains →
    hasExplicitRoute U qm.delivery (extractDomain address) = false → isLocal qm address = true
  explicitRoute : ∀ (D : MailDelivery), ∀ r ∈ D.routes, r.domain ≠ "*" → r.senderDomain = "" →
    r.domain = Session.addressDomain U address →
    hasExplicitRoute U D (extractDomain address) = true
  remote : ∀ recipients, address ∈ recipients →
    address ∈ (groupByDomain U recipients).members (Session.addressDomain U address)
  route : ∀ r : Route, toLower U r.domain = Session.addressDomain U address →
    routeScore U (toLower U (trimSuffix (Session.addressDomain U address) ".")) r =
      some (100000 + (toLower U r.domain).utf8ByteSize)

theorem Agree.governed (h : Agree U address) : Governed U address where
  compliance := by
    intro rules sender recipients r hr hdomain hscope hmem
    refine mem_filter.mpr ⟨hr, ?_⟩
    have hany : recipients.any (fun a => complianceDomain U a = toLower U (trimSuffix r.domain "."))
        = true := any_eq_true.mpr ⟨address, hmem, by simp [hdomain, h.compliance]⟩
    simp only [hany, Bool.and_true]
    simp [hscope]
  policy := by
    intro scope ctx htype hdomain hmem
    obtain ⟨d, hd, hfold⟩ := h.policy
    have hany : (scope.domains.any fun domain => equalFold U domain d) = true :=
      any_eq_true.mpr ⟨_, hdomain, hfold⟩
    have hrcpt : (ctx.toAddrs.any fun rcpt => (policyDomain rcpt).any fun d =>
        scope.domains.any fun domain => equalFold U domain d) = true :=
      any_eq_true.mpr ⟨address, hmem, by rw [hd]; exact hany⟩
    simp only [matchesScope, htype, hrcpt, Bool.or_true]
  localDelivery := by
    rintro qm rfl hdomain hroute
    rw [isLocal, hroute, h.localDelivery]
    simpa using hdomain
  explicitRoute := by
    intro D r hr hstar hsender hdomain
    refine any_eq_true.mpr ⟨r, hr, ?_⟩
    rw [hdomain] at hstar ⊢
    simp [hstar, hsender, h.explicitRoute]
  remote := by
    intro recipients hmem
    rw [members_groupByDomain]
    exact mem_filter.mpr ⟨hmem, decide_eq_true h.remote⟩
  route := by
    intro r hdomain
    have hkey : toLower U (trimSuffix (Session.addressDomain U address) ".") =
        Session.addressDomain U address := by
      have hroute := h.route
      rwa [h.localDelivery] at hroute
    rw [routeScore, hkey, hdomain]
    exact if_pos rfl

end Agreement

/-- **All components find the same domain in an address exactly when the
address is plain**, and what is configured for that domain then applies to the
address everywhere. -/
theorem one_domain_iff (U : CaseTables) (hU : Settled U) (address : String) :
    (Agree U address ↔ PlainAddress U address) ∧ (PlainAddress U address → Governed U address) :=
  ⟨⟨Agree.plainAddress, PlainAddress.agree hU⟩, fun h => (h.agree hU).governed⟩

/-- On ASCII, lower case differs from the rune only for the upper-case letters,
and is then a letter from `a` on. -/
theorem toLower_ascii (c : Char) : c.toLower = c ∨ 97 ≤ c.toLower.val := by
  by_cases h : 65 ≤ c.val ∧ c.val ≤ 90
  · right
    have hval : c.toLower.val = c.val + 32 := congrArg Char.val (dif_pos h)
    rw [hval]
    have hlow : 65 ≤ c.val.toNat := UInt32.le_iff_toNat_le.mp h.1
    have hhigh : c.val.toNat ≤ 90 := UInt32.le_iff_toNat_le.mp h.2
    rw [UInt32.le_iff_toNat_le, UInt32.toNat_add]
    show 97 ≤ (c.val.toNat + 32) % 2 ^ 32
    omega
  · exact .inl (dif_neg h)

theorem asciiTables_settled : Settled asciiTables where
  idem := by
    intro c
    show c.toLower.toLower = c.toLower
    rcases toLower_ascii c with h | h
    · rw [h, h]
    · refine dif_neg fun hupper => ?_
      have := UInt32.le_trans h hupper.2
      exact absurd this (by decide)
  dot := by
    intro c h
    rcases toLower_ascii c with hsame | hletter
    · exact hsame.symm.trans h
    · rw [show c.toLower = '.' from h] at hletter
      exact absurd hletter (by decide)

theorem one_domain_plain :
    Agree asciiTables "bob@Corp.example" ∧ Governed asciiTables "bob@Corp.example" := by
  have hplain : PlainAddress asciiTables "bob@Corp.example" := by
    refine ⟨"bob", "Corp.example", by decide, by decide, by decide, ?_, ?_⟩
    · rintro _ ⟨rfl⟩
      decide
    · exact all_eq_true.mp (by decide)
  have h := one_domain_iff asciiTables asciiTables_settled "bob@Corp.example"
  exact ⟨h.1.mpr hplain, h.2 hplain⟩

/-- A session of an unknown client with a server for `corp.example`. -/
def strangerSession : Session where
  tables := asciiTables
  config := { localDomains := ["corp.example"] }

/-- A rule that takes custody of all mail of `corp.example`. -/
def custodyRule : Rule where
  name := "custody"
  domain := "corp.example"
  scope := .either
  mode := .hold

/-- The mailbox `"eve@free.example"@corp.example`, without its quotes, is
accepted as local; no compliance rule and no policy of the domain is applied to
it, no mailbox and no remote group is found for it. -/
theorem accepted_without_domain :
    let address := "eve@free.example@corp.example"
    (strangerSession.rcpt address none).2 = none ∧
      (strangerSession.rcpt address none).1.toAddrs = [address] ∧
      Session.addressDomain asciiTables address = "corp.example" ∧
      complianceDomain asciiTables address = "free.example@corp.example" ∧
      evaluate asciiTables [custodyRule] "x@y" [address] = [] ∧
      matchesScope asciiTables { type := .domain, domains := ["corp.example"] }
        { toAddrs := [address] } = false ∧
      extractDomain address = "" ∧
      (groupByDomain asciiTables [address]).keys = [] := by
  refine ⟨by decide, by decide, by decide, by decide, rfl, by decide, by decide, by decide⟩

end EmailService
