/-
# Expanding a recipient through the aliases

`resolveRecipient` replaces an address by the targets of its alias, each resolved in turn, and
puts an address without an alias to the user directory.  The map `seen` holds the addresses between
the start and the present call: an entry is made on the way down and deleted on the way up, so it
is the path and not the set of everything visited.

The specification speaks of the paths of the alias graph alone (`Expansion`) and of the leaves of
the tree they form (`leaves`).  A call is judged against both under any set of addresses above it
(`Resolves`), which is what the recursion carries.
-/
import EmailService.HeaderFields

namespace EmailService.Recipients

open GoStrings List

/-- `smtp.SMTPError`. -/
structure SMTPError where
  code : ℕ
  enhancedCode : ℕ × ℕ × ℕ := (0, 0, 0)
  message : String
  deriving DecidableEq

/-- How a request to the recipient directory ends.  `ok` carries the recipients of the reply, or
nothing where its body does not decode. -/
inductive DirectoryReply where
  | badRequest
  | failed
  | status (code : ℕ)
  | ok (recipients : Option (List String))

/-- What `resolveRecipient` reads.  The directory and the user store may change while an address is
expanded, so they are asked with the number of addresses already put to them. -/
structure Session where
  tables : CaseTables := asciiTables
  aliases : AList fun _ : String => List String := ∅
  localDomains : List String := []
  validateRecipients : Bool := false
  recipientDirectoryURL : String := ""
  directory : ℕ → String → DirectoryReply := fun _ _ => .failed
  /-- The e-mail address of the enabled user, `none` for a session without a validator. -/
  recipient : Option (ℕ → String → Option String) := none

/-- The addresses being expanded, and how many were put to the directory. -/
structure State where
  seen : List String := []
  asked : ℕ := 0
  deriving DecidableEq

def loopError : SMTPError := { code := 554, message := "Alias routing loop" }

def unavailable : SMTPError := { code := 451, message := "Recipient directory unavailable" }

section

variable (S : Session)

def Session.key (address : String) : String := toLower S.tables address

/-- The checks on the recipients of a reply. -/
def directoryRecipients : DirectoryReply → Except SMTPError (List String)
  | .badRequest =>
    .error { code := 451, message := "Invalid recipient directory configuration" }
  | .failed => .error unavailable
  | .status code =>
    if code = 404 then .error { code := 550, message := "Unknown or disabled recipient" }
    else .error unavailable
  | .ok reply =>
    match reply with
    | none => .error { code := 451, message := "Invalid recipient directory response" }
    | some recipients =>
      if recipients.length = 0 ∨ 1000 < recipients.length then
        .error { code := 451, message := "Invalid recipient directory response" }
      else if recipients.any fun target =>
          HeaderFields.addressDomain S.tables target = "" ||
            target.toList.any fun c => c = '\r' || c = '\n' then
        .error { code := 451, message := "Invalid directory recipient" }
      else .ok recipients

/-- `resolveRecipient` from the alias lookup on, for an address that has no alias. -/
def resolveTerminal (n : ℕ) (address : String) : Except SMTPError (List String) :=
  let isLocal := S.localDomains.any fun d =>
    equalFold S.tables d (HeaderFields.addressDomain S.tables address)
  if isLocal && S.validateRecipients then
    if S.recipientDirectoryURL ≠ "" then directoryRecipients S (S.directory n address)
    else
      match S.recipient with
      | none => .error unavailable
      | some recipient =>
        match recipient n address with
        | none =>
          .error { code := 550, enhancedCode := (5, 1, 1),
                   message := "Unknown or disabled recipient" }
        | some email => .ok [email]
  else .ok [address]

abbrev Outcome := Option (Except SMTPError (List String) × State)

/-- The loop over the targets of an alias. -/
def resolveEach (resolve : String → State → Outcome) :
    List String → List String → State → Outcome
  | [], resolved, st => some (.ok resolved, st)
  | t :: ts, resolved, st =>
    match resolve t st with
    | none => none
    | some (.error e, st) => some (.error e, st)
    | some (.ok v, st) => resolveEach resolve ts (resolved ++ v) st

/-- `resolveRecipient`, `none` where the fuel does not suffice. -/
def resolveRecipient : ℕ → String → State → Outcome
  | 0, _, _ => none
  | fuel + 1, address, st =>
    let key := S.key address
    if key ∈ st.seen ∨ 20 < st.seen.length then some (.error loopError, st)
    else
      -- the deferred `delete` runs however the call ends
      Option.map (fun out => (out.1, { out.2 with seen := out.2.seen.erase key }))
        (match S.aliases.lookup key with
        | some targets =>
          resolveEach (resolveRecipient fuel) targets [] { st with seen := key :: st.seen }
        | none =>
          some (resolveTerminal S st.asked address,
            { seen := key :: st.seen, asked := st.asked + 1 }))

/-! ### The alias graph -/

/-- The path leads from its first address along the aliases. -/
inductive Expansion : String → List String → Prop where
  | here (address : String) : Expansion address [address]
  | follow {address target : String} {targets path : List String}
      (hlookup : S.aliases.lookup (S.key address) = some targets) (hmem : target ∈ targets)
      (hpath : Expansion target path) : Expansion address (address :: path)

/-- The addresses without an alias at which the expansion ends, in depth-first order, of the tree
cut at the depth. -/
def leaves : ℕ → String → List String
  | 0, _ => []
  | depth + 1, address =>
    match S.aliases.lookup (S.key address) with
    | some targets => targets.flatMap (leaves depth)
    | none => [address]

/-- What the directory makes of the addresses, the first of them being its `n`-th. -/
def resolutions : ℕ → List String → List String
  | _, [] => []
  | n, address :: rest =>
    (match resolveTerminal S n address with
      | .ok recipients => recipients
      | .error _ => []) ++ resolutions (n + 1) rest

/-- Every lookup is answered with recipients. -/
def Answering : Prop := ∀ n address, ∃ recipients, resolveTerminal S n address = .ok recipients

/-- Below the addresses `seen`, some path from the address comes back to one of them or to itself,
or is longer than the bound. -/
def Loops (seen : List String) (address : String) : Prop :=
  ∃ path, Expansion S address path ∧
    (¬ (path.map S.key ++ seen).Nodup ∨ 21 < path.length + seen.length)

/-- A call (or a row of calls) with `seen` and `n` ends, gives `seen` back, and, where the directory
answers, reports a loop exactly if there is one and the resolutions of the leaves otherwise. -/
def Resolves (seen acc ends : List String) (n : ℕ) (looping : Prop) (out : Outcome) : Prop :=
  ∃ r n', out = some (r, ⟨seen, n'⟩) ∧
    (Answering S →
      (looping → r = .error loopError) ∧
      (¬ looping → r = .ok (acc ++ resolutions S n ends) ∧ n' = n + ends.length))

end

variable {S : Session}

theorem resolutions_append (n : ℕ) (xs ys : List String) :
    resolutions S n (xs ++ ys) = resolutions S n xs ++ resolutions S (n + xs.length) ys := by
  induction xs generalizing n with
  | nil => simp [resolutions]
  | cons x xs ih =>
    rw [cons_append, resolutions, resolutions, ih, append_assoc, length_cons,
      Nat.add_assoc, Nat.add_comm 1]

variable {seen : List String} {address : String}

theorem loops_of_stopped (h : S.key address ∈ seen ∨ 20 < seen.length) : Loops S seen address := by
  refine ⟨[address], .here address, ?_⟩
  rcases h with hmem | hlen
  · exact .inl fun hnodup => (nodup_cons.mp hnodup).1 hmem
  · right
    simp only [length_singleton]
    omega

/-- Below an address that is not on the path and within the bound, a loop is one below a target. -/
theorem loops_iff (hseen : seen.Nodup) (hkey : S.key address ∉ seen) (hlen : seen.length ≤ 20) :
    Loops S seen address ↔ ∃ targets, S.aliases.lookup (S.key address) = some targets ∧
      ∃ t ∈ targets, Loops S (S.key address :: seen) t := by
  have hmove : ∀ path : List String,
      ((address :: path).map S.key ++ seen).Nodup ↔
        (path.map S.key ++ S.key address :: seen).Nodup := by
    intro path
    exact (perm_middle.nodup_iff).symm
  constructor
  · rintro ⟨path, hpath, hbad⟩
    cases hpath with
    | here =>
      rcases hbad with hdup | hlong
      · exact absurd (nodup_cons.mpr ⟨hkey, hseen⟩) hdup
      · simp only [length_singleton] at hlong
        omega
    | @follow _ t targets path hlookup hmem hpath =>
      refine ⟨targets, hlookup, t, hmem, path, hpath, ?_⟩
      rw [hmove] at hbad
      simp only [length_cons] at hbad ⊢
      exact hbad.imp_right (by omega)
  · rintro ⟨targets, hlookup, t, hmem, path, hpath, hbad⟩
    refine ⟨address :: path, .follow hlookup hmem hpath, ?_⟩
    rw [hmove]
    simp only [length_cons] at hbad ⊢
    exact hbad.imp_right (by omega)

/-! ### The loop over the targets -/

theorem resolveEach_resolves {resolve : String → State → Outcome} {ends : String → List String}
    {looping : String → Prop} {targets : List String}
    (hone : ∀ t ∈ targets, ∀ n, Resolves S seen [] (ends t) n (looping t) (resolve t ⟨seen, n⟩))
    (acc : List String) (n : ℕ) :
    Resolves S seen acc (targets.flatMap ends) n (∃ t ∈ targets, looping t)
      (resolveEach resolve targets acc ⟨seen, n⟩) := by
  induction targets generalizing acc n with
  | nil =>
    refine ⟨.ok acc, n, rfl, fun _ => ⟨?_, fun _ => ?_⟩⟩
    · rintro ⟨t, ht, -⟩
      exact absurd ht not_mem_nil
    · simp [resolutions]
  | cons t ts ih =>
    obtain ⟨r, n₁, hrun, hfirst⟩ := hone t mem_cons_self n
    rcases r with e | v
    · -- the first target fails: with an answering directory it is the loop
      refine ⟨.error e, n₁, by simp only [resolveEach, hrun], fun hans => ?_⟩
      obtain ⟨hloop, hok⟩ := hfirst hans
      by_cases ht : looping t
      · exact ⟨fun _ => hloop ht, fun hno => absurd ⟨t, mem_cons_self, ht⟩ hno⟩
      · exact absurd (hok ht).1 (by simp)
    · obtain ⟨r, n₂, hrest, htail⟩ :=
        ih (fun t ht => hone t (mem_cons_of_mem _ ht)) (acc ++ v) n₁
      refine ⟨r, n₂, by simp only [resolveEach, hrun, hrest], fun hans => ?_⟩
      obtain ⟨hloop, hok⟩ := hfirst hans
      obtain ⟨hloops, hoks⟩ := htail hans
      have ht : ¬ looping t := fun ht => absurd (hloop ht) (by simp)
      obtain ⟨hv, rfl⟩ := hok ht
      have hv : v = resolutions S n (ends t) := by simpa using hv
      constructor
      · rintro ⟨t', ht', hl⟩
        rcases mem_cons.mp ht' with rfl | ht'
        · exact absurd hl ht
        · exact hloops ⟨t', ht', hl⟩
      · intro hno
        obtain ⟨hr, hn⟩ := hoks fun ⟨t', ht', hl⟩ => hno ⟨t', mem_cons_of_mem _ ht', hl⟩
        rw [flatMap_cons, resolutions_append, length_append, hr, hn, hv,
          append_assoc, Nat.add_assoc]
        exact ⟨rfl, rfl⟩

/-! ### The call -/

/-- The induction is on the fuel; the bound on the path is what makes it suffice. -/
theorem resolveRecipient_resolves {fuel depth : ℕ} (hseen : seen.Nodup)
    (hfuel : 22 ≤ fuel + seen.length) (hpath : seen.length ≤ 21) (hdepth : 22 ≤ depth + seen.length)
    (address : String) (n : ℕ) :
    Resolves S seen [] (leaves S depth address) n (Loops S seen address)
      (resolveRecipient S fuel address ⟨seen, n⟩) := by
  induction fuel generalizing depth seen address n with
  | zero => omega
  | succ fuel ih =>
    obtain ⟨depth, rfl⟩ : ∃ d, depth = d + 1 := ⟨depth - 1, by omega⟩
    by_cases hstop : S.key address ∈ seen ∨ 20 < seen.length
    · refine ⟨.error loopError, n, by simp only [resolveRecipient, if_pos hstop], fun _ => ?_⟩
      exact ⟨fun _ => rfl, fun hno => absurd (loops_of_stopped hstop) hno⟩
    · obtain ⟨hkey, hlen⟩ := not_or.mp hstop
      have hbelow := loops_iff (S := S) hseen hkey (not_lt.mp hlen)
      have hback : (S.key address :: seen).erase (S.key address) = seen :=
        erase_cons_head ..
      rcases hlookup : S.aliases.lookup (S.key address) with - | targets
      · refine ⟨resolveTerminal S n address, n + 1, ?_, fun hans => ?_⟩
        · simp only [resolveRecipient, if_neg hstop, hlookup, Option.map_some, hback]
        · have hno : ¬ Loops S seen address := by
            rw [hbelow]
            rintro ⟨targets, h, -⟩
            rw [hlookup] at h
            cases h
          obtain ⟨recipients, hterm⟩ := hans n address
          refine ⟨fun h => absurd h hno, fun _ => ?_⟩
          simp [leaves, hlookup, resolutions, hterm]
      · have hcons : (S.key address :: seen).Nodup := nodup_cons.mpr ⟨hkey, hseen⟩
        have hlen' : (S.key address :: seen).length = seen.length + 1 := length_cons
        have hdepth' : 22 ≤ depth + (S.key address :: seen).length := by omega
        have hone : ∀ t ∈ targets, ∀ n, Resolves S (S.key address :: seen) []
            (leaves S depth t) n (Loops S (S.key address :: seen) t)
            (resolveRecipient S fuel t ⟨S.key address :: seen, n⟩) :=
          fun t _ n => ih hcons (by omega) (by omega) hdepth' t n
        obtain ⟨r, n', hrun, hspec⟩ := resolveEach_resolves hone [] n
        refine ⟨r, n', ?_, fun hans => ?_⟩
        · simp only [resolveRecipient, if_neg hstop, hlookup, hrun, Option.map_some, hback]
        · have hiff : Loops S seen address ↔
              ∃ t ∈ targets, Loops S (S.key address :: seen) t := by
            rw [hbelow]
            simp only [hlookup, Option.some.injEq, exists_eq_left']
          rw [hiff]
          simpa only [leaves, hlookup] using hspec hans

/-- Two lists that share a member list. -/
def sharedAliases : Session where
  aliases := [⟨"all@a", ["dev@a", "ops@a"]⟩, ⟨"dev@a", ["Team@a"]⟩, ⟨"ops@a", ["team@A", "x@b"]⟩,
    ⟨"team@a", ["y@b"]⟩].toAList

end EmailService.Recipients
