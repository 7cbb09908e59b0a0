/-
EmailService/Entitlements.lean

Send-as rights (internal/auth/auth.go, scim.go and user_repository.go).

Accounts and the domains they may send from are held twice: in two maps of the
running process, which `AuthorizedToSendAs` reads, and in a database, which
deletes the domains of an account with the account.  `Synced` says that the two
agree: a restart would rebuild the rights that are honoured.

`GrantDomainAccess` and `RevokeDomainAccess` change the map before the database
answers, and a deleted account keeps its entry in the map.  `Harmless` is what
has to be true before a call for the two to agree after it, and a run keeps
them together exactly if each of its calls is harmless
(`agree_iff_harmless`).
-/
import EmailService.GoStrings

namespace EmailService.Entitlements

open GoStrings List Function

/-- `User`. -/
structure User where
  username : String
  passwordHash : String := ""
  email : String
  enabled : Bool := true
  scimID : String := ""
  externalID : String := ""

/-! ### The database -/

/-- The tables `users` (with `scim_identities` joined) and
`user_domain_entitlements`, whose rows refer to an account. -/
structure Repository where
  users : List User
  entitlements : List (String × String)
  references : ∀ row ∈ entitlements, row.1 ∈ users.map User.username

inductive DbError
  | notFound
  | conflict
  | unavailable
  deriving DecidableEq

namespace Repository

variable (db : Repository)

/-- The row `SaveUser` leaves; without a SCIM ID the identity stays as it is. -/
def merged (user : User) : User :=
  match db.users.find? (·.username = user.username) with
  | some old =>
    if user.scimID = "" then
      { user with scimID := old.scimID, externalID := old.externalID }
    else user
  | none => user

/-- `SaveUser`: an account has one SCIM identity. -/
def saveUser (user : User) : Except DbError Repository :=
  match db.users.find? (·.username = user.username) with
  | some old =>
    if user.scimID ≠ "" ∧ old.scimID ≠ "" ∧ user.scimID ≠ old.scimID then .error .conflict
    else .ok
      { db with
        users := db.merged user :: db.users.filter (·.username ≠ user.username)
        references := by
          intro row hrow
          obtain ⟨u, hu, hname⟩ := mem_map.mp (db.references row hrow)
          have hmerged : (db.merged user).username = user.username := by
            unfold merged
            split
            · split_ifs <;> rfl
            · rfl
          rw [map_cons, mem_cons, hmerged]
          by_cases h : row.1 = user.username
          · exact .inl h
          · refine .inr (mem_map.mpr ⟨u, mem_filter.mpr ⟨hu, ?_⟩, hname⟩)
            simpa [hname] using h }
  | none => .ok
      { db with
        users := user :: db.users
        references := fun row hrow => mem_cons_of_mem _ (db.references row hrow) }

variable (username : String)

/-- `DeleteUser`, which takes the entitlements with it. -/
def deleteUser : Except DbError Repository :=
  if username ∈ db.users.map User.username then
    .ok
      { users := db.users.filter (·.username ≠ username)
        entitlements := db.entitlements.filter (·.1 ≠ username)
        references := by
          intro row hrow
          obtain ⟨hrow, hne⟩ := mem_filter.mp hrow
          obtain ⟨u, hu, hname⟩ := mem_map.mp (db.references row hrow)
          refine mem_map.mpr ⟨u, mem_filter.mpr ⟨hu, ?_⟩, hname⟩
          rw [hname]
          exact hne }
  else .error .notFound

/-- `GrantDomainEntitlement`. -/
def grantDomainEntitlement (domain : String) : Except DbError Repository :=
  if h : username ∈ db.users.map User.username then
    if (username, domain) ∈ db.entitlements then .ok db
    else .ok
      { db with
        entitlements := (username, domain) :: db.entitlements
        references := by
          rintro row (- | ⟨-, hrow⟩)
          · exact h
          · exact db.references row hrow }
  else .error .conflict

/-- `RevokeDomainEntitlement`. -/
def revokeDomainEntitlement (domain : String) : Except DbError Repository :=
  if (username, domain) ∈ db.entitlements then
    .ok
      { db with
        entitlements := db.entitlements.filter (· ≠ (username, domain))
        references := fun row hrow => db.references row (mem_filter.mp hrow).1 }
  else .error .notFound

/-- `LoadAllUsers`. -/
def loadAllUsers : Option User := db.users.find? (·.username = username)

/-- The rows of one account; the query sorts them by domain. -/
def domainsOf : List String :=
  ((db.entitlements.filter (·.1 = username)).map Prod.snd).mergeSort (· ≤ ·)

/-- `LoadAllDomainEntitlements`. -/
def loadAllDomainEntitlements : Option (List String) :=
  match db.domainsOf username with
  | [] => none
  | domains => some domains

end Repository

/-- How a call to the database ends: with its own answer, with an error before
it did anything, or with an error after it was done. -/
inductive Answer
  | answered
  | lost
  | unreported
  deriving DecidableEq

/-- A statement, if persistence is configured. -/
def persist (answer : Answer) (statement : Repository → Except DbError Repository) :
    Option Repository → Option DbError × Option Repository
  | none => (none, none)
  | some db =>
    match answer, statement db with
    | .lost, _ => (some .unavailable, some db)
    | _, .error e => (some e, some db)
    | .answered, .ok db' => (none, some db')
    | .unreported, .ok db' => (some .unavailable, some db')

/-! ### The running process -/

/-- `Validator` with its `UserStore`. -/
structure Validator where
  users : String → Option User
  domainOwnership : String → Option (List String)
  repository : Option Repository

inductive AuthError
  | userNotFound
  | accountConflict
  | hashing
  | noRepository
  | persistence (e : DbError)
  deriving DecidableEq

variable (U : CaseTables)

namespace Validator

variable (v : Validator)

def domains (username : String) : List String := (v.domainOwnership username).getD []

/-- `emailDomain`. -/
def emailDomain (email : String) : String :=
  match split email '@' with
  | [_, domain] => if domain = "" then "" else toLower U domain
  | _ => ""

/-- `AuthorizedToSendAs`. -/
def authorizedToSendAs (username fromAddress : String) : Bool :=
  if username = "" then false
  else
    match split fromAddress '@' with
    | [fromUser, domain] =>
      let fromDomain := toLower U domain
      if (v.domains username).any fun d => equalFold U d fromDomain then true
      else
        match v.users username with
        | none => false
        | some user =>
          equalFold U user.email fromAddress ||
            (equalFold U fromUser username && emailDomain U user.email != "" &&
              equalFold U (emailDomain U user.email) fromDomain)
    | _ => false

variable (answer : Answer)

/-- `AddUser`; `hash` is bcrypt's answer. -/
def addUser (hash : Option String) (username email : String) : Option AuthError × Validator :=
  match hash with
  | none => (some .hashing, v)
  | some passwordHash =>
    if (v.users username).isSome then (some .accountConflict, v)
    else
      let user : User := { username, passwordHash, email }
      match persist answer (·.saveUser user) v.repository with
      | (some e, repository) => (some (.persistence e), { v with repository })
      | (none, repository) =>
        (none, { v with users := update v.users username (some user), repository })

/-- `ProvisionSCIM`. -/
def provisionSCIM (uuid username email externalID : String) (enabled : Bool) :
    Option AuthError × Validator :=
  if (v.users username).isSome then (some .accountConflict, v)
  else
    let user : User := { username, email, enabled, scimID := uuid, externalID }
    match v.repository with
    | none => (some .noRepository, v)
    | some _ =>
      match persist answer (·.saveUser user) v.repository with
      | (some e, repository) => (some (.persistence e), { v with repository })
      | (none, repository) =>
        (none, { v with users := update v.users username (some user), repository })

/-- `DeleteUser`. -/
def deleteUser (answer : Answer) (username : String) : Option AuthError × Validator :=
  match v.users username with
  | none => (some .userNotFound, v)
  | some _ =>
    match persist answer (·.deleteUser username) v.repository with
    | (none, repository) | (some .notFound, repository) =>
      (none, { v with users := update v.users username none, repository })
    | (some e, repository) => (some (.persistence e), { v with repository })

/-- `DeleteSCIM`; `order` is the order in which the map is walked. -/
def deleteSCIM (order : List String) (id : String) : Option AuthError × Validator :=
  match order.find? fun name => (v.users name).any fun u => u.scimID = id && id ≠ "" with
  | none => (some .userNotFound, v)
  | some name =>
    match v.repository with
    | none => (some .noRepository, v)
    | some _ =>
      match persist answer (·.deleteUser name) v.repository with
      | (none, repository) =>
        (none, { v with users := update v.users name none, repository })
      | (some e, repository) => (some (.persistence e), { v with repository })

/-- The map's entry after a grant of a domain it does not hold. -/
def granted (username domain : String) : String → Option (List String) :=
  update v.domainOwnership username (some (v.domains username ++ [domain]))

/-- `GrantDomainAccess`. -/
def grantDomainAccess (username domain : String) : Option AuthError × Validator :=
  let domain := toLower U domain
  if domain ∈ v.domains username then (none, v)
  else
    -- the map first
    let domainOwnership := v.granted username domain
    match persist answer (·.grantDomainEntitlement username domain) v.repository with
    | (some e, repository) => (some (.persistence e), { v with domainOwnership, repository })
    | (none, repository) => (none, { v with domainOwnership, repository })

/-- The map's entry after a revocation. -/
def revoked (username domain : String) : String → Option (List String) :=
  update v.domainOwnership username
    ((v.domainOwnership username).map fun domains => domains.filter (· ≠ domain))

/-- `RevokeDomainAccess`. -/
def revokeDomainAccess (username domain : String) : Option AuthError × Validator :=
  let domain := toLower U domain
  let domainOwnership := v.revoked username domain
  match persist answer (·.revokeDomainEntitlement username domain) v.repository with
  | (some e, repository) => (some (.persistence e), { v with domainOwnership, repository })
  | (none, repository) => (none, { v with domainOwnership, repository })

/-- `LoadDomainEntitlements`. -/
def loadDomainEntitlements : Option AuthError × Validator :=
  match v.repository with
  | none => (some .noRepository, v)
  | some db => (none, { v with domainOwnership := db.loadAllDomainEntitlements })

end Validator

/-- The start of the process: `SetRepository` and `LoadDomainEntitlements`. -/
def start : Option Repository → Validator
  | none => ⟨fun _ => none, fun _ => none, none⟩
  | some db =>
    (Validator.loadDomainEntitlements ⟨db.loadAllUsers, fun _ => none, some db⟩).2

/-! ### Runs -/

inductive Event
  | addUser (answer : Answer) (hash : Option String) (username email : String)
  | provisionSCIM (answer : Answer) (uuid username email externalID : String) (enabled : Bool)
  | deleteUser (answer : Answer) (username : String)
  | deleteSCIM (answer : Answer) (order : List String) (id : String)
  | grant (answer : Answer) (username domain : String)
  | revoke (answer : Answer) (username domain : String)
  | restart

def Validator.apply (v : Validator) : Event → Validator
  | .addUser answer hash username email => (v.addUser answer hash username email).2
  | .provisionSCIM answer uuid username email externalID enabled =>
    (v.provisionSCIM answer uuid username email externalID enabled).2
  | .deleteUser answer username => (v.deleteUser answer username).2
  | .deleteSCIM answer order id => (v.deleteSCIM answer order id).2
  | .grant answer username domain => (v.grantDomainAccess U answer username domain).2
  | .revoke answer username domain => (v.revokeDomainAccess U answer username domain).2
  | .restart => start v.repository

/-- The rights that are honoured are those a restart would rebuild. -/
def Validator.Synced (v : Validator) : Prop :=
  ∀ db, v.repository = some db → ∀ username domain,
    domain ∈ v.domains username ↔ (username, domain) ∈ db.entitlements

/-- The rights agree, and `AuthorizedToSendAs` answers as it would had they just
been loaded. -/
structure Validator.Agrees (v : Validator) : Prop where
  synced : v.Synced
  authorized : ∀ username fromAddress, v.authorizedToSendAs U username fromAddress =
    v.loadDomainEntitlements.2.authorizedToSendAs U username fromAddress

/-- What a call needs for the rights to agree after it. -/
def Harmless (v : Validator) : Event → Prop
  | .addUser .. | .provisionSCIM .. | .restart => True
  | .deleteUser answer username =>
    answer = .lost ∨ v.users username = none ∨ v.domains username = []
  | .deleteSCIM answer order id =>
    answer = .lost ∨ ∀ name,
      (order.find? fun name => (v.users name).any fun u => u.scimID = id && id ≠ "") =
        some name → v.domains name = []
  | .grant answer username domain =>
    toLower U domain ∈ v.domains username ∨
      answer ≠ .lost ∧ ∀ db, v.repository = some db → username ∈ db.users.map User.username
  | .revoke answer username domain =>
    answer ≠ .lost ∨ toLower U domain ∉ v.domains username

/-- The rights agree at the start and after every call. -/
def AllAgree (v : Validator) : List Event → Prop
  | [] => v.Agrees U
  | e :: es => v.Agrees U ∧ AllAgree (v.apply U e) es

/-- Every call is harmless in the state it finds. -/
def AllHarmless (v : Validator) : List Event → Prop
  | [] => True
  | e :: es => Harmless U v e ∧ AllHarmless (v.apply U e) es

/-! ### What a call to the database leaves -/

section Outcome

variable {U} {answer : Answer} {db : Repository}

/-- The database after a statement, however the call ended. -/
def outcome (answer : Answer) (statement : Repository → Except DbError Repository)
    (db : Repository) : Repository :=
  match answer, statement db with
  | .lost, _ | _, .error _ => db
  | _, .ok db' => db'

theorem persist_eq (answer : Answer) (statement : Repository → Except DbError Repository)
    (db : Repository) :
    ∃ r, persist answer statement (some db) = (r, some (outcome answer statement db)) := by
  rcases answer with - | - | - <;> rcases h : statement db with e | db' <;>
    exact ⟨_, by simp only [persist, outcome, h]; rfl⟩

theorem outcome_lost (statement : Repository → Except DbError Repository) :
    outcome .lost statement db = db := by
  unfold outcome
  split <;> rfl

variable {statement : Repository → Except DbError Repository}

theorem outcome_error {e : DbError} (h : statement db = .error e) :
    outcome answer statement db = db := by
  unfold outcome
  rw [h]
  rcases answer with - | - | - <;> rfl

theorem outcome_ok {db' : Repository} (ha : answer ≠ .lost) (h : statement db = .ok db') :
    outcome answer statement db = db' := by
  unfold outcome
  rw [h]
  rcases answer with - | - | -
  · rfl
  · exact absurd rfl ha
  · rfl

theorem outcome_saveUser (user : User) :
    (outcome answer (·.saveUser user) db).entitlements = db.entitlements := by
  by_cases ha : answer = .lost
  · rw [ha, outcome_lost]
  · rcases h : db.saveUser user with e | db'
    · rw [outcome_error h]
    · rw [outcome_ok ha h]
      unfold Repository.saveUser at h
      split at h
      · split_ifs at h
        cases h
        rfl
      · cases h
        rfl

theorem outcome_deleteUser (name : String) (row : String × String) :
    row ∈ (outcome answer (·.deleteUser name) db).entitlements ↔
      row ∈ db.entitlements ∧ (answer ≠ .lost → row.1 ≠ name) := by
  by_cases ha : answer = .lost
  · rw [ha, outcome_lost]
    exact ⟨fun h => ⟨h, fun hne => absurd rfl hne⟩, And.left⟩
  · by_cases hname : name ∈ db.users.map User.username
    · have h : db.deleteUser name = .ok _ := if_pos hname
      rw [outcome_ok ha h]
      simp [ha]
    · -- no row refers to an account that is not there
      have h : db.deleteUser name = .error .notFound := if_neg hname
      rw [outcome_error h]
      refine ⟨fun hrow => ⟨hrow, fun _ hne => hname ?_⟩, And.left⟩
      exact hne ▸ db.references row hrow

variable (username domain : String) (row : String × String)

theorem outcome_grant :
    row ∈ (outcome answer (·.grantDomainEntitlement username domain) db).entitlements ↔
      row ∈ db.entitlements ∨ row = (username, domain) ∧ answer ≠ .lost ∧
        username ∈ db.users.map User.username := by
  by_cases ha : answer = .lost
  · rw [ha, outcome_lost]
    exact ⟨.inl, fun h => h.resolve_right fun h' => h'.2.1 rfl⟩
  · by_cases hname : username ∈ db.users.map User.username
    · by_cases hrow : (username, domain) ∈ db.entitlements
      · have h : db.grantDomainEntitlement username domain = .ok db := by
          rw [Repository.grantDomainEntitlement, dif_pos hname, if_pos hrow]
        rw [outcome_ok ha h]
        refine ⟨.inl, ?_⟩
        rintro (h' | ⟨rfl, -⟩)
        · exact h'
        · exact hrow
      · have h : db.grantDomainEntitlement username domain = .ok _ :=
          (dif_pos hname).trans (if_neg hrow)
        rw [outcome_ok ha h, mem_cons]
        exact ⟨fun h' => h'.symm.imp_right fun h' => ⟨h', ha, hname⟩,
          fun h' => (h'.imp_right And.left).symm⟩
    · have h : db.grantDomainEntitlement username domain = .error .conflict := dif_neg hname
      rw [outcome_error h]
      exact ⟨.inl, fun h' => h'.resolve_right fun h' => hname h'.2.2⟩

theorem outcome_revoke :
    row ∈ (outcome answer (·.revokeDomainEntitlement username domain) db).entitlements ↔
      row ∈ db.entitlements ∧ (answer ≠ .lost → row ≠ (username, domain)) := by
  by_cases ha : answer = .lost
  · rw [ha, outcome_lost]
    exact ⟨fun h => ⟨h, fun hne => absurd rfl hne⟩, And.left⟩
  · by_cases hrow : (username, domain) ∈ db.entitlements
    · have h : db.revokeDomainEntitlement username domain = .ok _ := if_pos hrow
      rw [outcome_ok ha h]
      simp [ha]
    · have h : db.revokeDomainEntitlement username domain = .error .notFound := if_neg hrow
      rw [outcome_error h]
      exact ⟨fun h' => ⟨h', fun _ heq => hrow (heq ▸ h')⟩, And.left⟩

end Outcome

/-! ### What a call leaves of the rights -/

section Calls

variable {U} {v : Validator} {db : Repository}

/-- The process after a call: what it holds of the rights, and the database. -/
def Validator.Holds (v : Validator) (ownership : String → Option (List String))
    (db : Repository) : Prop :=
  v.domainOwnership = ownership ∧ v.repository = some db

theorem Validator.Holds.synced_iff {ownership : String → Option (List String)}
    (h : v.Holds ownership db) :
    v.Synced ↔ ∀ username domain,
      domain ∈ (ownership username).getD [] ↔ (username, domain) ∈ db.entitlements := by
  unfold Synced domains
  rw [h.1, h.2]
  constructor
  · exact fun hs => hs db rfl
  · rintro hs _ ⟨rfl⟩
    exact hs

theorem holds_addUser (hv : v.repository = some db) (answer : Answer) (hash : Option String)
    (username email : String) :
    ∃ db', (v.addUser answer hash username email).2.Holds v.domainOwnership db' ∧
      db'.entitlements = db.entitlements := by
  rcases hash with - | passwordHash
  · exact ⟨db, ⟨rfl, hv⟩, rfl⟩
  · by_cases hexists : (v.users username).isSome
    · rw [Validator.addUser, if_pos hexists]
      exact ⟨db, ⟨rfl, hv⟩, rfl⟩
    · obtain ⟨r, hr⟩ := persist_eq answer (·.saveUser { username, passwordHash, email }) db
      rw [Validator.addUser, if_neg hexists, hv]
      dsimp only
      rw [hr]
      rcases r with - | e <;> exact ⟨_, ⟨rfl, rfl⟩, outcome_saveUser _⟩

theorem holds_provisionSCIM (hv : v.repository = some db) (answer : Answer)
    (uuid username email externalID : String) (enabled : Bool) :
    ∃ db', (v.provisionSCIM answer uuid username email externalID enabled).2.Holds
        v.domainOwnership db' ∧ db'.entitlements = db.entitlements := by
  by_cases hexists : (v.users username).isSome
  · rw [Validator.provisionSCIM, if_pos hexists]
    exact ⟨db, ⟨rfl, hv⟩, rfl⟩
  · obtain ⟨r, hr⟩ := persist_eq answer
      (·.saveUser { username, email, enabled, scimID := uuid, externalID }) db
    rw [Validator.provisionSCIM, if_neg hexists, hv]
    dsimp only
    rw [hr]
    rcases r with - | e <;> exact ⟨_, ⟨rfl, rfl⟩, outcome_saveUser _⟩

variable {username domain username' domain' : String}

section

variable (hv : v.repository = some db)

include hv

variable (answer : Answer)

/-- A deletion leaves the map of the rights alone. -/
theorem holds_deleteUser (h : v.users username ≠ none) :
    (v.deleteUser answer username).2.Holds v.domainOwnership
      (outcome answer (·.deleteUser username) db) := by
  obtain ⟨user, huser⟩ := Option.ne_none_iff_exists'.mp h
  obtain ⟨r, hr⟩ := persist_eq answer (·.deleteUser username) db
  rw [Validator.deleteUser, huser, hv]
  dsimp only
  rw [hr]
  rcases r with - | - | - | - <;> exact ⟨rfl, rfl⟩

theorem holds_deleteSCIM {order : List String} {id name : String}
    (h : (order.find? fun name => (v.users name).any fun u => u.scimID = id && id ≠ "") =
      some name)
    :
    (v.deleteSCIM answer order id).2.Holds v.domainOwnership
      (outcome answer (·.deleteUser name) db) := by
  obtain ⟨r, hr⟩ := persist_eq answer (·.deleteUser name) db
  rw [Validator.deleteSCIM, h, hv]
  dsimp only
  rw [hr]
  rcases r with - | e <;> exact ⟨rfl, rfl⟩

theorem holds_grant (h : toLower U domain ∉ v.domains username) :
    (v.grantDomainAccess U answer username domain).2.Holds
      (v.granted username (toLower U domain))
      (outcome answer (·.grantDomainEntitlement username (toLower U domain)) db) := by
  obtain ⟨r, hr⟩ := persist_eq answer (·.grantDomainEntitlement username (toLower U domain)) db
  rw [Validator.grantDomainAccess, if_neg h, hv, hr]
  rcases r with - | e <;> exact ⟨rfl, rfl⟩

theorem holds_revoke (username domain : String) :
    (v.revokeDomainAccess U answer username domain).2.Holds
      (v.revoked username (toLower U domain))
      (outcome answer (·.revokeDomainEntitlement username (toLower U domain)) db) := by
  obtain ⟨r, hr⟩ := persist_eq answer (·.revokeDomainEntitlement username (toLower U domain)) db
  rw [Validator.revokeDomainAccess, hv, hr]
  rcases r with - | e <;> exact ⟨rfl, rfl⟩

end

theorem mem_granted :
    domain' ∈ (v.granted username domain username').getD [] ↔
      domain' ∈ v.domains username' ∨ (username', domain') = (username, domain) := by
  unfold Validator.granted
  by_cases h : username' = username
  · subst h
    simp
  · rw [update_of_ne h]
    simp [h, Validator.domains]

theorem mem_revoked :
    domain' ∈ (v.revoked username domain username').getD [] ↔
      domain' ∈ v.domains username' ∧ (username', domain') ≠ (username, domain) := by
  unfold Validator.revoked
  by_cases h : username' = username
  · subst h
    rcases hd : v.domainOwnership username' with - | ds <;> simp [Validator.domains, hd]
  · rw [update_of_ne h]
    simp [h, Validator.domains]

/-- A start rebuilds the rights of the database. -/
theorem mem_loadAllDomainEntitlements :
    domain ∈ (db.loadAllDomainEntitlements username).getD [] ↔
      (username, domain) ∈ db.entitlements := by
  have hmem : domain ∈ db.domainsOf username ↔ (username, domain) ∈ db.entitlements := by
    simp [Repository.domainsOf]
  rw [← hmem, Repository.loadAllDomainEntitlements]
  rcases db.domainsOf username with - | ⟨d, ds⟩ <;> rfl

theorem synced_start (db : Repository) : (start (some db)).Synced := by
  have h : (start (some db)).Holds db.loadAllDomainEntitlements db := ⟨rfl, rfl⟩
  rw [h.synced_iff]
  exact fun username domain => mem_loadAllDomainEntitlements

end Calls

/-! ### Runs keep the rights together -/

section Runs

variable {U} {v : Validator} {db : Repository}

section

variable (hv : v.repository = some db)

include hv

/-- A deletion of an account that is there: the database forgets its domains. -/
theorem synced_delete_iff {v' : Validator} (hs : v.Synced)
    {answer : Answer} {name : String}
    (h : v'.Holds v.domainOwnership (outcome answer (·.deleteUser name) db)) :
    v'.Synced ↔ answer = .lost ∨ v.domains name = [] := by
  have hs' := hs db hv
  rw [h.synced_iff]
  constructor
  · intro hall
    by_cases ha : answer = .lost
    · exact .inl ha
    · refine .inr (eq_nil_iff_forall_not_mem.mpr fun domain hmem => ?_)
      have hrow := (outcome_deleteUser name (name, domain)).mp ((hall name domain).mp hmem)
      exact hrow.2 ha rfl
  · intro hcond username domain
    rw [outcome_deleteUser, ← hs' username domain]
    refine ⟨fun hmem => ⟨hmem, fun ha hname => ?_⟩, And.left⟩
    have hname' : username = name := hname
    have hnil := hcond.resolve_left ha
    rw [hname'] at hmem
    exact absurd (hnil ▸ hmem : domain ∈ []) (not_mem_nil)

/-- **One call keeps the rights together exactly if it is harmless.** -/
theorem apply_synced_iff (hs : v.Synced) (e : Event) :
    (v.apply U e).Synced ↔ Harmless U v e := by
  have hs' := hs db hv
  cases e with
  | addUser answer hash username email =>
    obtain ⟨db', h, hrows⟩ := holds_addUser hv answer hash username email
    refine iff_of_true (h.synced_iff.mpr ?_) trivial
    rw [hrows]
    exact hs'
  | provisionSCIM answer uuid username email externalID enabled =>
    obtain ⟨db', h, hrows⟩ := holds_provisionSCIM hv answer uuid username email externalID enabled
    refine iff_of_true (h.synced_iff.mpr ?_) trivial
    rw [hrows]
    exact hs'
  | deleteUser answer username =>
    rcases huser : v.users username with - | user
    · refine iff_of_true ?_ (.inr (.inl huser))
      show (v.deleteUser answer username).2.Synced
      rw [Validator.deleteUser, huser]
      exact hs
    · have hne : v.users username ≠ none := by simp [huser]
      refine (synced_delete_iff hv hs (holds_deleteUser hv answer hne)).trans ?_
      simp [Harmless, hne]
  | deleteSCIM answer order id =>
    rcases hfind : order.find? fun name =>
        (v.users name).any fun u => u.scimID = id && id ≠ "" with - | name
    · refine iff_of_true ?_ (.inr fun name h => ?_)
      · show (v.deleteSCIM answer order id).2.Synced
        rw [Validator.deleteSCIM, hfind]
        exact hs
      · rw [hfind] at h
        cases h
    · refine (synced_delete_iff hv hs (holds_deleteSCIM hv answer hfind)).trans ?_
      refine or_congr_right ⟨fun h name' h' => ?_, fun h => h name hfind⟩
      rw [hfind] at h'
      cases h'
      exact h
  | grant answer username domain =>
    by_cases hmem : toLower U domain ∈ v.domains username
    · refine iff_of_true ?_ (.inl hmem)
      show (v.grantDomainAccess U answer username domain).2.Synced
      rw [Validator.grantDomainAccess, if_pos hmem]
      exact hs
    · refine (holds_grant hv answer hmem).synced_iff.trans ?_
      constructor
      · intro hall
        have hrow := (hall username (toLower U domain)).mp (mem_granted.mpr (.inr rfl))
        have hrow' := ((outcome_grant _ _ _).mp hrow).resolve_left fun h =>
          hmem ((hs' _ _).mpr h)
        refine .inr ⟨hrow'.2.1, fun db' hdb' => ?_⟩
        rw [hv] at hdb'
        cases hdb'
        exact hrow'.2.2
      · intro hcond username' domain'
        obtain ⟨ha, hname⟩ := hcond.resolve_left hmem
        rw [mem_granted, outcome_grant, hs' username' domain']
        exact or_congr_right ⟨fun h => ⟨h, ha, hname db hv⟩, And.left⟩
  | revoke answer username domain =>
    refine (holds_revoke hv answer username domain).synced_iff.trans ?_
    constructor
    · intro hall
      by_cases ha : answer = .lost
      · refine .inr fun hmem => ?_
        have hrow : (username, toLower U domain) ∈ (outcome answer
            (·.revokeDomainEntitlement username (toLower U domain)) db).entitlements :=
          (outcome_revoke _ _ _).mpr ⟨(hs' _ _).mp hmem, fun h => absurd ha h⟩
        exact (mem_revoked.mp ((hall _ _).mpr hrow)).2 rfl
      · exact .inl ha
    · intro hcond username' domain'
      rw [mem_revoked, outcome_revoke, ← hs' username' domain']
      refine and_congr_right fun hmem => ⟨fun h _ => h, fun h heq => ?_⟩
      rcases hcond with ha | hnot
      · exact h ha heq
      · obtain ⟨rfl, rfl⟩ := Prod.mk.inj heq
        exact hnot hmem
  | restart =>
    refine iff_of_true ?_ trivial
    show (start v.repository).Synced
    rw [hv]
    exact synced_start db

/-- The database stays configured. -/
theorem apply_repository (e : Event) :
    ∃ db', (v.apply U e).repository = some db' := by
  cases e with
  | addUser answer hash username email =>
    obtain ⟨db', h, -⟩ := holds_addUser hv answer hash username email
    exact ⟨db', h.2⟩
  | provisionSCIM answer uuid username email externalID enabled =>
    obtain ⟨db', h, -⟩ := holds_provisionSCIM hv answer uuid username email externalID enabled
    exact ⟨db', h.2⟩
  | deleteUser answer username =>
    rcases huser : v.users username with - | user
    · refine ⟨db, ?_⟩
      show (v.deleteUser answer username).2.repository = some db
      rw [Validator.deleteUser, huser]
      exact hv
    · exact ⟨_, (holds_deleteUser hv answer (by simp [huser])).2⟩
  | deleteSCIM answer order id =>
    rcases hfind : order.find? fun name =>
        (v.users name).any fun u => u.scimID = id && id ≠ "" with - | name
    · refine ⟨db, ?_⟩
      show (v.deleteSCIM answer order id).2.repository = some db
      rw [Validator.deleteSCIM, hfind]
      exact hv
    · exact ⟨_, (holds_deleteSCIM hv answer hfind).2⟩
  | grant answer username domain =>
    by_cases hmem : toLower U domain ∈ v.domains username
    · refine ⟨db, ?_⟩
      show (v.grantDomainAccess U answer username domain).2.repository = some db
      rw [Validator.grantDomainAccess, if_pos hmem]
      exact hv
    · exact ⟨_, (holds_grant hv answer hmem).2⟩
  | revoke answer username domain => exact ⟨_, (holds_revoke hv answer username domain).2⟩
  | restart =>
    refine ⟨db, ?_⟩
    show (start v.repository).repository = some db
    rw [hv]
    rfl

theorem Validator.Synced.agrees (hs : v.Synced) : v.Agrees U := by
  refine ⟨hs, fun username fromAddress => ?_⟩
  have hany (p : String → Bool) : (v.domains username).any p =
      (v.loadDomainEntitlements.2.domains username).any p := by
    rw [Bool.eq_iff_iff, any_eq_true, any_eq_true]
    refine exists_congr fun domain => and_congr_left fun _ => ?_
    rw [loadDomainEntitlements, hv]
    exact (hs db hv username domain).trans mem_loadAllDomainEntitlements.symm
  have husers : v.loadDomainEntitlements.2.users = v.users := by
    rw [loadDomainEntitlements, hv]
  unfold authorizedToSendAs
  simp only [hany, husers]

theorem allAgree_iff (hs : v.Synced) (es : List Event) :
    AllAgree U v es ↔ AllHarmless U v es := by
  induction es generalizing v db with
  | nil => exact iff_of_true (hs.agrees hv) trivial
  | cons e es ih =>
    obtain ⟨db', hv'⟩ := apply_repository (U := U) hv e
    have hstep := apply_synced_iff (U := U) hv hs e
    constructor
    · rintro ⟨-, hall⟩
      have hs' : (v.apply U e).Synced := by
        cases es with
        | nil => exact hall.synced
        | cons e' es => exact hall.1.synced
      exact ⟨hstep.mp hs', (ih hv' hs').mp hall⟩
    · rintro ⟨he, hall⟩
      exact ⟨hs.agrees hv, (ih hv' (hstep.mpr he)).mpr hall⟩

end

/-- **The rights in memory are those in the database all along a run exactly if
each of its calls is harmless.** -/
theorem agree_iff_harmless (U : CaseTables) (db : Repository) (es : List Event) :
    AllAgree U (start (some db)) es ↔ AllHarmless U (start (some db)) es :=
  allAgree_iff rfl (synced_start db) es

end Runs

/-! ### Two failing runs -/

/-- A database with one account. -/
def oneAccount : Repository where
  users := [{ username := "alice", email := "alice@example.com" }]
  entitlements := []
  references := by simp

def run (v : Validator) (es : List Event) : Validator := es.foldl (Validator.apply asciiTables) v

/-- **A failed grant gives the right, and an account created under the name of a
deleted one inherits its domains**, until the next restart. -/
theorem rights_outlive :
    ((start (some oneAccount)).grantDomainAccess asciiTables .lost "alice" "example.org").1 =
        some (.persistence .unavailable) ∧
      (run (start (some oneAccount)) [.grant .lost "alice" "example.org"]).authorizedToSendAs
        asciiTables "alice" "ceo@example.org" = true ∧
      (run (start (some oneAccount)) [.grant .lost "alice" "example.org",
        .restart]).authorizedToSendAs asciiTables "alice" "ceo@example.org" = false ∧
      (run (start (some oneAccount)) [.grant .answered "alice" "example.org",
        .deleteUser .answered "alice",
        .addUser .answered (some "hash") "alice" "alice@example.com"]).authorizedToSendAs
        asciiTables "alice" "ceo@example.org" = true ∧
      (run (start (some oneAccount)) [.grant .answered "alice" "example.org",
        .deleteUser .answered "alice",
        .addUser .answered (some "hash") "alice" "alice@example.com",
        .restart]).authorizedToSendAs asciiTables "alice" "ceo@example.org" = false := by
  refine ⟨?_, ?_, ?_, ?_, ?_⟩
  all_goals decide +kernel

end EmailService.Entitlements
