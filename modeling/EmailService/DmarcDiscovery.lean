/-
EmailService/DmarcDiscovery.lean

Where DMARC finds the policy for a domain: under `_dmarc` of the domain itself,
then under `_dmarc` of its organizational domain.

Here the two lookups go through the resolver with its cache and may fail for
the moment (`evaluate`); where they do not, this is the evaluation of
Dmarc.lean (`evaluate_calm`).

Main result: `organizational_policy_iff`.  A domain that publishes no policy of
its own comes under the policy of its organizational domain just if its name
under `_dmarc` has TXT records of another kind: a name without records is an
error for the resolver, and an error ends the search.
-/
import EmailService.Dmarc
import EmailService.Resolver

namespace EmailService.Dmarc

open GoStrings Dns ExpiringCache

variable (N : Names)

/-- The cache of the resolver for TXT records. -/
abbrev TxtCache := Cache String (Reply String)

/-- The name under which a domain publishes its policy. -/
def policyName (domain : String) : String := canonicalName N.U ("_dmarc." ++ domain)

/-- The loop of `lookupDMARCRecord`, where the lookups meet the conditions
`around`, one after another. -/
def discover (zone : Zone) : (ℕ → Conditions) → TxtCache → List String →
    Except Failure (Option (String × String)) × TxtCache
  | _, cache, [] => (.ok none, cache)
  | around, cache, domain :: rest =>
    match lookup zone (around 0) cache (policyName N domain) with
    | (.error err, cache) => (.error err, cache)
    | (.ok records, cache) =>
      match records.find? (isDMARC N) with
      | some record => (.ok (some (record, domain)), cache)
      | none => discover zone (fun i => around (i + 1)) cache rest

variable (fromDomain : String) (e : Evidence)

/-- The evaluation by a record that has been found. -/
def conclude (found : String × String) : Evaluation :=
  let a := applied N fromDomain found
  { result := if spfPass N fromDomain a e || dkimPass N fromDomain a e then .pass else .fail
    policy := a.policy
    pct := a.pct }

/-- The evaluation without a record. -/
def undetermined : Evaluation := { result := .none, policy := .none, pct := 100 }

/-- `EvaluateDMARCDetails`, with the lookups through the resolver. -/
def evaluate (zone : Zone) (around : ℕ → Conditions) (cache : TxtCache) (fromDomain : String)
    (e : Evidence) : Evaluation :=
  match (discover N zone around cache (lookupDomains N fromDomain)).1 with
  | .ok (some found) => conclude N fromDomain e found
  | _ => undetermined

/-- The evaluation by the record of the organizational domain, with its policy
for subdomains. -/
def bySubdomainPolicy (record : String) : Evaluation :=
  let r := parseRecord record
  let a : Applied := ⟨r.subPolicy, r.pct, r.adkim, r.aspf⟩
  { result := if spfPass N fromDomain a e || dkimPass N fromDomain a e then .pass else .fail
    policy := r.subPolicy
    pct := r.pct }

variable {N} {zone : Zone} {around : ℕ → Conditions} {cache : TxtCache} {fromDomain record : String}

theorem conclude_organizational (e : Evidence)
    (h : equalFold N.U (orgDomain N fromDomain) fromDomain = false) :
    conclude N fromDomain e (record, orgDomain N fromDomain) =
      bySubdomainPolicy N fromDomain e record := by
  simp [conclude, bySubdomainPolicy, applied, h]

theorem bySubdomainPolicy_ne_undetermined (e : Evidence) :
    bySubdomainPolicy N fromDomain e record ≠ undetermined := by
  intro h
  have hresult := congrArg Evaluation.result h
  simp only [bySubdomainPolicy, undetermined] at hresult
  split at hresult <;> cases hresult

/-! ### Without failures -/

/-- Lookups that do not fail find what the zone holds. -/
theorem discover_calm (hcalm : ∀ i, (around i).fault = none) (hcache : Faithful zone cache)
    (domains : List String) :
    (discover N zone around cache domains).1.toOption =
      (searchRecord N zone domains).toOption := by
  induction domains generalizing around cache with
  | nil => rfl
  | cons domain rest ih =>
    obtain ⟨hfaithful, ⟨-, hreply⟩ | ⟨hfails, -⟩⟩ :=
      lookup_faithful (around 0) (policyName N domain) hcache
    · rw [discover, searchRecord, lookupTXT]
      generalize lookup zone (around 0) cache (policyName N domain) = r at hfaithful hreply
      obtain ⟨reply, cache'⟩ := r
      obtain rfl : reply = answer (zone (policyName N domain)) := hreply
      rw [show zone (toLower N.U (trimSuffix ("_dmarc." ++ domain) ".")) =
        zone (policyName N domain) from rfl]
      rcases zone (policyName N domain) with - | ⟨r, rs⟩
      · rfl
      · dsimp only [answer]
        rcases (r :: rs).find? (isDMARC N) with - | record
        · exact ih (fun i => hcalm (i + 1)) hfaithful
        · rfl
    · exact absurd (hcalm 0) hfails.2

/-! ### The organizational domain -/

/-- **The policy of the organizational domain is used, but for a temporary
failure, just if the name of the domain itself has records.** -/
theorem organizational_policy_iff (N : Names) (zone : Zone) (around : ℕ → Conditions)
    (cache : TxtCache) (fromDomain record : String) (e : Evidence) (hcache : Faithful zone cache)
    (horg : equalFold N.U (orgDomain N fromDomain) fromDomain = false)
    (hown : (zone (policyName N fromDomain)).find? (isDMARC N) = none)
    (hrecord : (zone (policyName N (orgDomain N fromDomain))).find? (isDMARC N) = some record) :
    (evaluate N zone around cache fromDomain e = bySubdomainPolicy N fromDomain e record ∨
      ∃ err, (discover N zone around cache (lookupDomains N fromDomain)).1 =
        .error (.temporary err)) ↔
    (zone (policyName N fromDomain) ≠ [] ∨ Fails (around 0) cache (policyName N fromDomain)) := by
  have hdomains : lookupDomains N fromDomain = [fromDomain, orgDomain N fromDomain] := by
    simp [lookupDomains, horg]
  unfold evaluate
  rw [hdomains, discover]
  obtain ⟨hfaithful, ⟨hholds, hreply⟩ | ⟨hfails, err, hreply⟩⟩ :=
    lookup_faithful (around 0) (policyName N fromDomain) hcache
  · -- the first lookup answers as the DNS does
    generalize lookup zone (around 0) cache (policyName N fromDomain) = r at hfaithful hreply
    obtain ⟨reply, cache₁⟩ := r
    obtain rfl : reply = answer (zone (policyName N fromDomain)) := hreply
    by_cases hnone : zone (policyName N fromDomain) = []
    · rw [hnone]
      refine iff_of_false ?_ (by simpa using hholds)
      rintro (h | ⟨err, h⟩)
      · exact bySubdomainPolicy_ne_undetermined e h.symm
      · cases h
    · rw [answer_of_ne hnone]
      refine iff_of_true ?_ (.inl hnone)
      dsimp only
      rw [hown]
      dsimp only
      rw [discover]
      obtain ⟨-, ⟨-, hreply⟩ | ⟨-, err, hreply⟩⟩ := lookup_faithful (around 1)
        (policyName N (orgDomain N fromDomain)) hfaithful
      · have hsome : zone (policyName N (orgDomain N fromDomain)) ≠ [] := by
          intro h
          rw [h] at hrecord
          cases hrecord
        generalize lookup zone (around 1) cache₁ _ = r at hreply
        obtain ⟨reply, cache₂⟩ := r
        obtain rfl : reply = answer (zone (policyName N (orgDomain N fromDomain))) := hreply
        rw [answer_of_ne hsome]
        dsimp only
        rw [hrecord]
        exact .inl (conclude_organizational e horg)
      · generalize lookup zone (around 1) cache₁ _ = r at hreply
        obtain ⟨reply, cache₂⟩ := r
        obtain rfl : reply = .error (.temporary err) := hreply
        exact .inr ⟨err, rfl⟩
  · generalize lookup zone (around 0) cache (policyName N fromDomain) = r at hreply
    obtain ⟨reply, cache₁⟩ := r
    obtain rfl : reply = .error (.temporary err) := hreply
    exact iff_of_true (.inr ⟨err, rfl⟩) (.inr hfails)

/-- A public suffix list with one organizational domain. -/
def shopNames : Names where
  U := asciiTables
  etldPlusOne _ := some "shop.example"

/-- The organizational domain publishes a policy, and its subdomain nothing. -/
def shopZone : Zone := fun name =>
  if name = "_dmarc.shop.example" then ["v=DMARC1; p=reject; sp=quarantine"] else []

/-- The subdomain has a TXT record of another kind under the name. -/
def markedZone : Zone := fun name =>
  if name = "_dmarc.news.shop.example" then ["reserved"] else shopZone name

def noEvidence : Evidence := ⟨"", "none", []⟩

def quiet : ℕ → Conditions := fun _ => ⟨0, none, none⟩

theorem organizational_policy_marked :
    Faithful markedZone Cache.empty ∧
      evaluate shopNames markedZone quiet Cache.empty "news.shop.example" noEvidence =
        bySubdomainPolicy shopNames "news.shop.example" noEvidence
          "v=DMARC1; p=reject; sp=quarantine" := by
  have hcache : Faithful markedZone Cache.empty := Cache.all_empty
  refine ⟨hcache, ?_⟩
  have h := (organizational_policy_iff shopNames markedZone quiet .empty "news.shop.example"
    "v=DMARC1; p=reject; sp=quarantine" noEvidence hcache (by decide +kernel) (by decide +kernel)
    (by decide +kernel)).mpr (.inl (by decide +kernel))
  rcases h with h | ⟨err, h⟩
  · exact h
  · have hok : (discover shopNames markedZone quiet .empty
        (lookupDomains shopNames "news.shop.example")).1.isOk = true := by decide +kernel
    rw [h] at hok
    cases hok

/-- **A subdomain without records escapes the policy of its organizational
domain.** -/
theorem subdomain_escapes_policy :
    (shopZone (policyName shopNames "news.shop.example")).find? (isDMARC shopNames) = none ∧
      (shopZone (policyName shopNames (orgDomain shopNames "news.shop.example"))).find?
        (isDMARC shopNames) = some "v=DMARC1; p=reject; sp=quarantine" ∧
      (discover shopNames shopZone quiet Cache.empty
        (lookupDomains shopNames "news.shop.example")).1 = .error .notFound ∧
      (evaluate shopNames shopZone quiet Cache.empty "news.shop.example" noEvidence).policy =
        .none ∧
      (bySubdomainPolicy shopNames "news.shop.example" noEvidence
        "v=DMARC1; p=reject; sp=quarantine").policy = .quarantine := by
  refine ⟨by decide +kernel, by decide +kernel, ?_, by decide +kernel, by decide +kernel⟩
  rfl

end EmailService.Dmarc
