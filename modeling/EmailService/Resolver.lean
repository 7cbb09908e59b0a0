/-
EmailService/Resolver.lean

The DNS resolver with its caches (internal/dns/resolver.go).

The DNS answers a query with records, with the report that there are none, or
it fails for the moment.  `net.Resolver` makes an error of the last two.  The
resolver keeps records for five minutes and the report that there are none for
thirty seconds; a temporary failure is not kept.

`Faithful` is the invariant of a cache: what it holds is what the DNS says.
Under it a lookup answers as the DNS does, unless it fails for the moment
(`lookup_faithful`).
-/
import EmailService.GoStrings
import EmailService.ExpiringCache

namespace EmailService.Dns

open GoStrings ExpiringCache Function

/-- Why a lookup has no records: an error with `IsNotFound`, or another one. -/
inductive Failure
  | notFound
  | temporary (err : String)
  deriving DecidableEq

abbrev Reply (α : Type) := Except Failure (List α)

/-- What `net.Resolver` makes of the records of a name: none of them are an
error. -/
def answer {α : Type} : List α → Reply α
  | [] => .error .notFound
  | records => .ok records

theorem answer_of_ne {α : Type} {records : List α} (h : records ≠ []) :
    answer records = .ok records := by
  cases records with
  | nil => exact absurd rfl h
  | cons r rs => rfl

/-- What a lookup finds around it: the time, a failure of the DNS, and the key
that a full cache gives up. -/
structure Conditions where
  now : ℤ
  fault : Option String
  evicted : Option String

/-- Five minutes and thirty seconds, in nanoseconds. -/
def cacheTTL : ℤ := 300 * 1000000000

def negativeTTL : ℤ := 30 * 1000000000

/-- `strings.ToLower(strings.TrimSuffix(domain, "."))`. -/
def canonicalName (U : CaseTables) (domain : String) : String :=
  toLower U (trimSuffix domain ".")

section Lookup

variable {α : Type}

/-- A full cache gives up one key. -/
def evict (cache : Cache String (Reply α)) : Option String → Cache String (Reply α)
  | none => cache
  | some key => update cache key none

/-- `LookupTXT` and `LookupMX` on the records of a name: the reply, and the
cache afterwards.  An entry counts before its time of expiry. -/
def lookup (records : String → List α) (c : Conditions) (cache : Cache String (Reply α))
    (name : String) : Reply α × Cache String (Reply α) :=
  match cache.find c.now name with
  | some reply => (reply, cache)
  | none =>
    match c.fault with
    | some err => (.error (.temporary err), cache)
    | none =>
      match answer (records name) with
      | .ok rs => (.ok rs, (evict cache c.evicted).set name (.ok rs) (c.now + cacheTTL - 1))
      | .error err =>
        (.error err, (evict cache c.evicted).set name (.error err) (c.now + negativeTTL - 1))

/-- What the cache holds is what the DNS says. -/
def Faithful (records : String → List α) (cache : Cache String (Reply α)) : Prop :=
  cache.All fun name reply => reply = answer (records name)

/-- A lookup of the name fails for the moment. -/
def Fails (c : Conditions) (cache : Cache String (Reply α)) (name : String) : Prop :=
  cache.find c.now name = none ∧ c.fault ≠ none

variable {records : String → List α} {cache : Cache String (Reply α)}

theorem Faithful.evict (h : Faithful records cache) (key : Option String) :
    Faithful records (evict cache key) := by
  cases key with
  | none => exact h
  | some key =>
    intro k e he
    change update cache key none k = some e at he
    by_cases hk : k = key
    · rw [hk, update_self] at he
      cases he
    · rw [update_of_ne hk] at he
      exact h k e he

/-- A lookup either answers as the DNS does, or fails for the moment. -/
theorem lookup_faithful (c : Conditions) (name : String) (h : Faithful records cache) :
    Faithful records (lookup records c cache name).2 ∧
      ((¬ Fails c cache name ∧ (lookup records c cache name).1 = answer (records name)) ∨
        (Fails c cache name ∧
          ∃ err, (lookup records c cache name).1 = .error (.temporary err))) := by
  unfold lookup Fails
  rcases hfind : cache.find c.now name with - | reply
  · rcases hfault : c.fault with - | err
    · have hset : ∀ expiresAt, Faithful records
          ((evict cache c.evicted).set name (answer (records name)) expiresAt) := fun _ =>
        (h.evict c.evicted).set rfl fun _ _ _ hv => hv
      dsimp only
      generalize hreply : answer (records name) = reply at hset
      cases reply with
      | ok rs => exact ⟨hset _, .inl ⟨by simp, rfl⟩⟩
      | error err => exact ⟨hset _, .inl ⟨by simp, rfl⟩⟩
    · exact ⟨h, .inr ⟨⟨rfl, by simp⟩, err, rfl⟩⟩
  · exact ⟨h, .inl ⟨by simp, h.find hfind⟩⟩

end Lookup

end EmailService.Dns
