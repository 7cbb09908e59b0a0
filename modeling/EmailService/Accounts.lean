/-
EmailService/Accounts.lean

To whom an address belongs (internal/auth/auth.go: `Recipient`,
`UpdateAccount`; scim.go: `UpdateSCIM`; internal/api: the requests that create
and change accounts).

`Recipient` takes an address for the e-mail address or the username of an
account, without regard to case, and returns the first account that the
iteration over the map finds.  The requests see to it that usernames differ,
letter for letter, and to nothing more.

Main result: `recipient_unique`.  If no request gives an enabled account an
address of another one, every address has one account, in whatever order the
map is iterated.  Nothing enforces that (`recipient_ambiguous`).

A request reads the accounts once to be checked and is carried out later, so
that the state it was checked in is any state.
-/
import EmailService.Entitlements
import EmailService.MailAddress

namespace EmailService.Accounts

open GoStrings Entitlements List Function Option

variable (U : CaseTables)

/-! ### Looking up -/

/-- An account takes mail for an address. -/
def accepts (address : String) (u : User) : Bool :=
  u.enabled && (equalFold U u.email address || equalFold U u.username address)

variable (v : Validator) (order : List String)

/-- `Recipient`; `order` is the order in which the map is walked. -/
def recipient (address : String) : Option User :=
  (order.filterMap v.users).find? (accepts U address)

/-- The mailbox in which `deliverLocal` files mail for an address. -/
def mailboxFor (rcpt : String) : Option String :=
  (recipient U v order rcpt).map User.username

/-- `order` visits the accounts, each once. -/
def Visits (users : String → Option User) : Prop :=
  order.Nodup ∧ ∀ name, name ∈ order ↔ users name ≠ none

/-! ### Changing -/

variable (answer : Entitlements.Answer)

/-- The account goes into the database, and then into the map. -/
def saved (name : String) (user : User) : Option AuthError × Validator :=
  match persist answer (·.saveUser user) v.repository with
  | (some e, repository) => (some (.persistence e), { v with repository })
  | (none, repository) =>
    (none, { v with users := update v.users name (some user), repository })

/-- An account after `UpdateAccount`: what is empty stays as it was. -/
def changed (old : User) (hash : Option String) (password email : String) (enabled : Option Bool) :
    User :=
  { old with
    passwordHash := if password ≠ "" then hash.getD "" else old.passwordHash
    email := if email ≠ "" then email else old.email
    enabled := enabled.getD old.enabled }

/-- `UpdateAccount`; `hash` is bcrypt's answer, asked for if there is a
password. -/
def updateAccount (hash : Option String) (username password email : String) (enabled : Option Bool)
    : Option AuthError × Validator :=
  if password ≠ "" ∧ hash = none then (some .hashing, v)
  else
    match v.users username with
    | none => (some .userNotFound, v)
    | some old => saved v answer username (changed old hash password email enabled)

/-- The account with a SCIM identity that the iteration finds. -/
def withSCIM (id : String) : Option (String × User) :=
  order.findSome? fun name =>
    (v.users name).bind fun u => if u.scimID = id then some (name, u) else none

/-- `UpdateSCIM`. -/
def updateSCIM (order : List String) (id email externalID : String) (active : Bool) :
    Option AuthError × Validator :=
  match withSCIM v order id with
  | none => (some .userNotFound, v)
  | some (name, old) =>
    match v.repository with
    | none => (some .noRepository, v)
    | some _ => saved v answer name { old with email, externalID, enabled := active }

/-- A call that creates or changes an account. -/
inductive Call
  | addUser (answer : Entitlements.Answer) (hash : Option String) (username email : String)
  | updateAccount (answer : Entitlements.Answer) (hash : Option String)
      (username password email : String) (enabled : Option Bool)
  | provisionSCIM (answer : Entitlements.Answer) (uuid username email externalID : String)
      (active : Bool)
  | updateSCIM (answer : Entitlements.Answer) (order : List String) (id email externalID : String)
      (active : Bool)

def Call.run : Call → Option AuthError × Validator
  | .addUser answer hash username email => v.addUser answer hash username email
  | .updateAccount answer hash username password email enabled =>
    Accounts.updateAccount v answer hash username password email enabled
  | .provisionSCIM answer uuid username email externalID active =>
    v.provisionSCIM answer uuid username email externalID active
  | .updateSCIM answer order id email externalID active =>
    Accounts.updateSCIM v answer order id email externalID active

/-! ### Requests -/

/-- What the process finds while it serves a request: the answers of the
database and of bcrypt, a new identifier, the accounts in the order of
`ListUsers` from the last to the first, and the order of iteration. -/
structure Circumstances where
  answer : Entitlements.Answer
  hash : Option String
  uuid : String
  listed : List String
  order : List String

/-- `validateIdentifier` finds no fault. -/
def validIdentifier (value : String) : Bool :=
  value ≠ "" && value.utf8ByteSize ≤ 255 && value.toList.all fun c => ' ' < c && c ≠ '\x7f'

/-- `validatePassword` finds no fault. -/
def validPassword (password : String) : Bool :=
  12 ≤ password.utf8ByteSize && password.utf8ByteSize ≤ 72

/-- `mail.ParseAddress` reads the text as the address itself. -/
def isAddress (email : String) : Bool :=
  match NetMail.parseAddress (email.toList.map some) with
  | some a => a.address = email
  | none => false

/-- The requests that create or change accounts: of the mailbox API, of the
administration and of SCIM. -/
inductive Request
  | createMailbox (username password email : String)
  | updateMailbox (username password email : String) (enabled : Option Bool)
  | createUser (username password email : String)
  | scimCreate (userName externalID : String) (active : Option Bool) (emails : List String)
  | scimReplace (id userName externalID : String) (active : Option Bool) (emails : List String)
  | scimPatch (id : String) (active : Bool)

/-- The attributes of a SCIM user are accepted; the e-mail address. -/
def scimEmail (userName externalID : String) (emails : List String) : Option String :=
  if validIdentifier userName = false ∨ 255 < externalID.utf8ByteSize ∨ 1 < emails.length then none
  else
    let email := emails.head?.getD userName
    if isAddress email then some email else none

/-- The call a request makes after its checks, which look at the accounts
`seen`; nothing if it is turned down. -/
def Request.call (seen : Validator) (c : Circumstances) : Request → Option Call
  | .createMailbox username password email =>
    let email := if email = "" then username else email
    if validIdentifier username && (validIdentifier email && '@' ∈ email.toList) &&
        validPassword password && (seen.users username).isNone then
      some (.addUser c.answer c.hash username email)
    else none
  | .updateMailbox username password email enabled =>
    match seen.users username with
    | none => none
    | some user =>
      if password = "" ∧ email = "" ∧ enabled = none then none
      else if email ≠ "" ∧ ¬ (validIdentifier email ∧ '@' ∈ email.toList) then none
      else if password ≠ "" ∧ validPassword password = false then none
      else
        some (.updateAccount c.answer c.hash username password
          (if email ≠ "" then email else user.email) enabled)
  | .createUser username password email =>
    if username = "" ∨ password = "" ∨ email = "" then none
    else some (.addUser c.answer c.hash username email)
  | .scimCreate userName externalID active emails =>
    (scimEmail userName externalID emails).map fun email =>
      .provisionSCIM c.answer c.uuid userName email externalID (active.getD true)
  | .scimReplace id userName externalID active emails =>
    match withSCIM seen c.listed id with
    | none => none
    | some (_, existing) =>
      if id = "" ∨ userName ≠ existing.username then none
      else
        (scimEmail userName externalID emails).map fun email =>
          .updateSCIM c.answer c.order id email externalID (active.getD true)
  | .scimPatch id active =>
    match withSCIM seen c.listed id with
    | none => none
    | some (_, existing) =>
      if id = "" then none
      else some (.updateSCIM c.answer c.order id existing.email existing.externalID active)

/-! ### Runs -/

/-- `Reached Allowed v₀ v`: requests whose calls are allowed where they are made
lead from `v₀` to `v`. -/
inductive Reached (Allowed : Validator → Call → Prop) (v₀ : Validator) : Validator → Prop
  | start : Reached Allowed v₀ v₀
  | serve {v seen : Validator} {c : Circumstances} {r : Request} {call : Call}
      (h : Reached Allowed v₀ v) (hcall : r.call seen c = some call) (hallowed : Allowed v call) :
      Reached Allowed v₀ (call.run v).2

/-- The account that a call is to write, and its place in the map. -/
def Call.account : Call → Option (String × User)
  | .addUser _ hash username email =>
    if (v.users username).isSome then none
    else some (username, { username, passwordHash := hash.getD "", email })
  | .updateAccount _ hash username password email enabled =>
    (v.users username).map fun old => (username, changed old hash password email enabled)
  | .provisionSCIM _ uuid username email externalID enabled =>
    if (v.users username).isSome then none
    else some (username, { username, email, enabled, scimID := uuid, externalID })
  | .updateSCIM _ order id email externalID active =>
    (withSCIM v order id).map fun (name, old) =>
      (name, { old with email, externalID, enabled := active })

/-- The account that a call is to write shares no address with another enabled
account. -/
def Call.Apart (call : Call) : Prop :=
  ∀ name u, call.account v = some (name, u) → ∀ other w, other ≠ name → v.users other = some w →
    ∀ address, accepts U address u = true → accepts U address w = false

/-- Every address belongs to one account at most. -/
def Unambiguous : Prop :=
  ∀ address name name' u u', v.users name = some u → v.users name' = some u' →
    accepts U address u = true → accepts U address u' = true → name = name'

/-- The map holds finitely many accounts, each under its username. -/
structure Wf (v : Validator) : Prop where
  keyed : ∀ name u, v.users name = some u → u.username = name
  finite : ∃ order, Visits order v.users

variable {U} {v v₀ : Validator} {call : Call}

/-! ### What a call does -/

theorem saved_users (name : String) (user : User) :
    (saved v answer name user).2.users = v.users ∨
      (saved v answer name user).2.users = update v.users name (some user) := by
  unfold saved
  rcases persist answer (·.saveUser user) v.repository with ⟨- | e, repository⟩
  · exact .inr rfl
  · exact .inl rfl

/-- **A call writes one account or none.** -/
theorem run_users (v : Validator) (call : Call) :
    (call.run v).2.users = v.users ∨ ∃ name u, call.account v = some (name, u) ∧
      (call.run v).2.users = update v.users name (some u) := by
  cases call with
  | addUser answer hash username email =>
    unfold Call.run Validator.addUser Call.account
    rcases hash with - | hash
    · exact .inl rfl
    · dsimp only
      split_ifs
      · exact .inl rfl
      · exact (saved_users answer username _).imp_right fun h => ⟨_, _, rfl, h⟩
  | updateAccount answer hash username password email enabled =>
    unfold Call.run updateAccount Call.account
    dsimp only
    split_ifs
    · exact .inl rfl
    · rcases v.users username with - | old
      · exact .inl rfl
      · exact (saved_users answer username _).imp_right fun h => ⟨_, _, rfl, h⟩
  | provisionSCIM answer uuid username email externalID active =>
    have hsaved := saved_users (v := v) answer username
      { username, email, enabled := active, scimID := uuid, externalID }
    unfold Call.run Validator.provisionSCIM Call.account
    dsimp only
    split_ifs
    · exact .inl rfl
    · unfold saved at hsaved
      rcases hdb : v.repository with - | db
      · exact .inl rfl
      · rw [hdb] at hsaved
        exact hsaved.imp_right fun h => ⟨_, _, rfl, h⟩
  | updateSCIM answer order id email externalID active =>
    unfold Call.run updateSCIM Call.account
    dsimp only
    rcases withSCIM v order id with - | ⟨name, old⟩
    · exact .inl rfl
    · dsimp only
      split
      · exact .inl rfl
      · exact (saved_users answer name _).imp_right fun h => ⟨_, _, rfl, h⟩

variable {order : List String} {name address : String} {u : User}

theorem withSCIM_users {id : String} (h : withSCIM v order id = some (name, u)) :
    v.users name = some u := by
  obtain ⟨key, -, hkey⟩ := exists_of_findSome?_eq_some h
  obtain ⟨w, hw, hsome⟩ := bind_eq_some_iff.mp hkey
  split_ifs at hsome
  cases hsome
  exact hw

/-- The account that is written goes where its username says. -/
theorem account_username (hwf : Wf v) (h : call.account v = some (name, u)) :
    u.username = name := by
  cases call with
  | addUser answer hash username email =>
    simp only [Call.account] at h
    split_ifs at h
    cases h
    rfl
  | updateAccount answer hash username password email enabled =>
    obtain ⟨old, hold, heq⟩ := map_eq_some_iff.mp h
    cases heq
    exact hwf.keyed _ old hold
  | provisionSCIM answer uuid username email externalID active =>
    simp only [Call.account] at h
    split_ifs at h
    cases h
    rfl
  | updateSCIM answer order id email externalID active =>
    obtain ⟨⟨name', old⟩, hold, heq⟩ := map_eq_some_iff.mp h
    cases heq
    exact hwf.keyed _ old (withSCIM_users hold)

theorem Visits.update {users : String → Option User} (h : Visits order users) (name : String)
    (u : User) : ∃ order', Visits order' (Function.update users name (some u)) := by
  have hmem : ∀ key, Function.update users name (some u) key ≠ none ↔
      key = name ∨ key ∈ order := by
    intro key
    by_cases hkey : key = name
    · simp [hkey]
    · simp [hkey, h.2 key]
  by_cases hname : name ∈ order
  · refine ⟨order, h.1, fun key => ?_⟩
    rw [hmem]
    exact ⟨.inr, fun hkey => hkey.elim (fun e => e ▸ hname) id⟩
  · refine ⟨name :: order, nodup_cons.mpr ⟨hname, h.1⟩, fun key => ?_⟩
    rw [hmem, mem_cons]

/-! ### What a run keeps -/

theorem Wf.run (h : Wf v) (call : Call) : Wf (call.run v).2 := by
  rcases run_users v call with husers | ⟨name, u, haccount, husers⟩
  · exact ⟨by rw [husers]; exact h.keyed, by rw [husers]; exact h.finite⟩
  · refine ⟨fun key w hw => ?_, ?_⟩
    · rw [husers] at hw
      by_cases hkey : key = name
      · subst hkey
        rw [update_self] at hw
        cases hw
        exact account_username h haccount
      · rw [update_of_ne hkey] at hw
        exact h.keyed key w hw
    · obtain ⟨order, horder⟩ := h.finite
      rw [husers]
      exact horder.update name u

/-- A call whose account is apart from the others keeps the addresses apart. -/
theorem Unambiguous.run (h : Unambiguous U v) (hapart : call.Apart U v) :
    Unambiguous U (call.run v).2 := by
  rcases run_users v call with husers | ⟨name, u, haccount, husers⟩
  · unfold Unambiguous
    rw [husers]
    exact h
  · intro address key key' w w' hw hw' haccepts haccepts'
    rw [husers] at hw hw'
    by_cases hkey : key = name <;> by_cases hkey' : key' = name
    · rw [hkey, hkey']
    · rw [hkey, update_self, some_inj] at hw
      rw [update_of_ne hkey'] at hw'
      rw [← hw] at haccepts
      rw [hapart name u haccount key' w' hkey' hw' address haccepts] at haccepts'
      cases haccepts'
    · rw [hkey', update_self, some_inj] at hw'
      rw [update_of_ne hkey] at hw
      rw [← hw'] at haccepts'
      rw [hapart name u haccount key w hkey hw address haccepts'] at haccepts
      cases haccepts
    · rw [update_of_ne hkey] at hw
      rw [update_of_ne hkey'] at hw'
      exact h address key key' w w' hw hw' haccepts haccepts'

theorem Reached.kept (h : Reached (fun v call => call.Apart U v) v₀ v) (hwf : Wf v₀)
    (hone : Unambiguous U v₀) : Wf v ∧ Unambiguous U v := by
  induction h with
  | start => exact ⟨hwf, hone⟩
  | serve _ _ hapart ih => exact ⟨ih.1.run _, ih.2.run hapart⟩

/-! ### The lookup -/

/-- `Recipient` finds an account that takes the mail, if there is one. -/
theorem recipient_eq_some_iff (hone : Unambiguous U v) (horder : Visits order v.users) :
    recipient U v order address = some u ↔
      ∃ name, v.users name = some u ∧ accepts U address u = true := by
  constructor
  · intro h
    obtain ⟨name, -, hname⟩ := mem_filterMap.mp (mem_of_find?_eq_some h)
    exact ⟨name, hname, find?_some h⟩
  · rintro ⟨name, hname, haccepts⟩
    have hmem : u ∈ order.filterMap v.users :=
      mem_filterMap.mpr ⟨name, (horder.2 name).mpr (by rw [hname]; simp), hname⟩
    rcases hfind : recipient U v order address with - | w
    · exact absurd haccepts (by simpa using find?_eq_none.mp hfind u hmem)
    · obtain ⟨name', -, hname'⟩ := mem_filterMap.mp (mem_of_find?_eq_some hfind)
      have heq := hone address name' name w u hname' hname (find?_some hfind) haccepts
      rw [heq, hname] at hname'
      exact hname'.symm

/-- **In a run that keeps the accounts apart every address belongs to one account
at most, and the order of iteration does not matter.** -/
theorem recipient_unique (U : CaseTables) (v₀ v : Validator) (hwf : Wf v₀)
    (hone : Unambiguous U v₀) (h : Reached (fun v call => call.Apart U v) v₀ v) :
    Unambiguous U v ∧ (∃ order, Visits order v.users) ∧
      ∀ order order', Visits order v.users → Visits order' v.users → ∀ address,
        recipient U v order address = recipient U v order' address ∧
          mailboxFor U v order address = mailboxFor U v order' address := by
  obtain ⟨hwf, hone⟩ := h.kept hwf hone
  refine ⟨hone, hwf.finite, fun order order' horder horder' address => ?_⟩
  have heq : recipient U v order address = recipient U v order' address := by
    ext u
    rw [recipient_eq_some_iff hone horder, recipient_eq_some_iff hone horder']
  exact ⟨heq, congrArg (Option.map User.username) heq⟩

/-! ### Two mailboxes -/

/-- A process without a database, for which everything goes well. -/
def calm : Circumstances := ⟨.answered, some "hash", "", [], []⟩

/-- The accounts after one mailbox with the username as its address and a
second one with the e-mail address given. -/
def twoMailboxes (email : String) : Validator :=
  (Call.run (Call.run (start none)
    (.addUser .answered (some "hash") "alice@a.example" "alice@a.example")).2
    (.addUser .answered (some "hash") "bob@a.example" email)).2

/-- The account of a mailbox created so. -/
def mailboxAccount (username email : String) : User :=
  { username, passwordHash := "hash", email }

theorem start_wf : Wf (start none) := by
  refine ⟨fun name u h => ?_, [], nodup_nil, fun name => ?_⟩
  · cases h
  · simp [start]

theorem start_unambiguous : Unambiguous U (start none) := by
  intro _ name _ u _ h
  cases h

theorem users_oneMailbox (name : String) :
    (Call.run (start none)
      (.addUser .answered (some "hash") "alice@a.example" "alice@a.example")).2.users name =
      if name = "alice@a.example" then some (mailboxAccount "alice@a.example" "alice@a.example")
      else none := by
  by_cases h : name = "alice@a.example" <;>
    simp [Call.run, Validator.addUser, start, persist, mailboxAccount, h]

theorem users_twoMailboxes (email name : String) :
    (twoMailboxes email).users name =
      if name = "bob@a.example" then some (mailboxAccount "bob@a.example" email)
      else if name = "alice@a.example" then
        some (mailboxAccount "alice@a.example" "alice@a.example")
      else none := by
  by_cases h : name = "bob@a.example"
  · simp [twoMailboxes, Call.run, Validator.addUser, start, persist, mailboxAccount, h]
  · rw [if_neg h, ← users_oneMailbox]
    simp [twoMailboxes, Call.run, Validator.addUser, start, persist, h]

theorem reached_twoMailboxes {Allowed : Validator → Call → Prop} {email : String}
    (hemail : Request.call (start none) calm
      (.createMailbox "bob@a.example" "correct horse" email) =
        some (.addUser .answered (some "hash") "bob@a.example" email))
    (h₁ : Allowed (start none)
      (.addUser .answered (some "hash") "alice@a.example" "alice@a.example"))
    (h₂ : Allowed (Call.run (start none)
      (.addUser .answered (some "hash") "alice@a.example" "alice@a.example")).2
      (.addUser .answered (some "hash") "bob@a.example" email)) :
    Reached Allowed (start none) (twoMailboxes email) := by
  have hfirst : Request.call (start none) calm
      (.createMailbox "alice@a.example" "correct horse" "") =
        some (.addUser .answered (some "hash") "alice@a.example" "alice@a.example") := by rfl
  exact .serve (.serve .start hfirst h₁) hemail h₂

theorem accepts_length (h : accepts U address u = true) (hsame : u.email = u.username) :
    address.toList.length = u.username.toList.length := by
  rw [accepts, hsame, Bool.or_self, Bool.and_eq_true] at h
  have := h.2
  rw [equalFold, Bool.and_eq_true, beq_iff_eq] at this
  exact this.1.symm

theorem recipient_unique_twoMailboxes :
    Unambiguous asciiTables (twoMailboxes "bob@a.example") := by
  refine (recipient_unique asciiTables (start none) (twoMailboxes "bob@a.example")
    start_wf start_unambiguous (reached_twoMailboxes rfl ?_ ?_)).1
  · intro name u _ other w _ hw
    cases hw
  · intro name u haccount other w _ hw address haccepts
    obtain ⟨rfl, rfl⟩ : "bob@a.example" = name ∧
        mailboxAccount "bob@a.example" "bob@a.example" = u := by
      simpa [Call.account, users_oneMailbox, mailboxAccount] using haccount
    rw [users_oneMailbox] at hw
    split_ifs at hw
    obtain rfl := some_inj.mp hw
    -- the two addresses differ in length
    rw [Bool.eq_false_iff]
    intro haccepts'
    have h := accepts_length haccepts rfl
    rw [accepts_length haccepts' rfl] at h
    revert h
    decide

/-- **The same address belongs to two accounts, and the order of iteration says
who gets the mail.** -/
theorem recipient_ambiguous :
    Reached (fun _ _ => True) (start none) (twoMailboxes "Alice@a.example") ∧
      Visits ["alice@a.example", "bob@a.example"] (twoMailboxes "Alice@a.example").users ∧
      Visits ["bob@a.example", "alice@a.example"] (twoMailboxes "Alice@a.example").users ∧
      mailboxFor asciiTables (twoMailboxes "Alice@a.example")
        ["alice@a.example", "bob@a.example"] "alice@a.example" = some "alice@a.example" ∧
      mailboxFor asciiTables (twoMailboxes "Alice@a.example")
        ["bob@a.example", "alice@a.example"] "alice@a.example" = some "bob@a.example" := by
  have hkeys : ∀ name, (twoMailboxes "Alice@a.example").users name ≠ none ↔
      name = "bob@a.example" ∨ name = "alice@a.example" := by
    intro name
    rw [users_twoMailboxes]
    split_ifs <;> simp [*]
  refine ⟨reached_twoMailboxes rfl trivial trivial, ⟨by decide, fun name => ?_⟩,
    ⟨by decide, fun name => ?_⟩, by decide +kernel, by decide +kernel⟩
  · rw [hkeys]
    simp [or_comm]
  · rw [hkeys]
    simp

end EmailService.Accounts
