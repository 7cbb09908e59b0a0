/-
EmailService/DaneAuth.lean

What a handshake configured by `GetTLSConfig` establishes about the server.

With TLSA records in force, a certificate list is accepted exactly if the leaf
is covered by an end-entity record or some certificate of the list is covered
by a trust-anchor record (`verifyPeerCertificate_iff`).  That the leaf has
anything to do with that certificate is not checked, so the handshake
authenticates the server only where the presented list answers for it
(`authenticated_iff`).
-/
import EmailService.Dane

namespace EmailService

open List

namespace Dane

/-! ### What a record asks for -/

variable (C : Crypto) (r : TLSARecord) (cert : Certificate)

/-- The association data of the record is that of the certificate: the selected
part of it, as it is or digested. -/
def TLSARecord.Covers : Prop :=
  ∃ data, extractCertificateData cert r.selector = .ok data ∧
    ((r.matchingType = 0 ∧ r.certificate = data) ∨
      (r.matchingType = 1 ∧ r.certificate = C.sha256 data) ∨
      (r.matchingType = 2 ∧ r.certificate = C.sha512 data))

/-- PKIX-EE and DANE-EE. -/
def TLSARecord.IsEndEntity (r : TLSARecord) : Prop := r.usage = 1 ∨ r.usage = 3

/-- PKIX-TA and DANE-TA. -/
def TLSARecord.IsTrustAnchor (r : TLSARecord) : Prop := r.usage = 0 ∨ r.usage = 2

/-- The certificates the code takes for the trust anchor of a record: for
PKIX-TA they must be authorities. -/
def TLSARecord.Anchors : Prop :=
  r.Covers C cert ∧ (r.usage = 2 ∨ (r.usage = 0 ∧ cert.isCA = true))

/-- A chain of signatures from `leaf` to `anchor` among the certificates of a
list; `SignedBy c i` says that the signature of `c` verifies with the key of
`i`. -/
def Connected (SignedBy : Certificate → Certificate → Prop) (presented : List Certificate)
    (leaf anchor : Certificate) : Prop :=
  Relation.ReflTransGen (fun c i => i ∈ presented ∧ SignedBy c i) leaf anchor

/-- The records vouch for the leaf: directly, or through a trust anchor that
signed for it. -/
def Authenticated (C : Crypto) (SignedBy : Certificate → Certificate → Prop)
    (records : List TLSARecord) (leaf : Certificate) (chain : List Certificate) : Prop :=
  (∃ r ∈ records, r.IsEndEntity ∧ r.Covers C leaf) ∨
    ∃ r ∈ records, ∃ anchor ∈ leaf :: chain, r.IsTrustAnchor ∧ r.Covers C anchor ∧
      Connected SignedBy (leaf :: chain) leaf anchor

/-! ### What the code accepts -/

section Matching

variable {C : Crypto} {r : TLSARecord} {cert leaf : Certificate} {chain : List Certificate}
  {records : List TLSARecord}

theorem matchCertificate_iff : matchCertificate C cert r = .ok true ↔ r.Covers C cert := by
  unfold matchCertificate TLSARecord.Covers
  rcases extractCertificateData cert r.selector with err | data
  · simp
  · have hdata : matchData C data r.certificate r.matchingType = .ok true ↔
        (r.matchingType = 0 ∧ r.certificate = data) ∨
          (r.matchingType = 1 ∧ r.certificate = C.sha256 data) ∨
          (r.matchingType = 2 ∧ r.certificate = C.sha512 data) := by
      unfold matchData
      split_ifs with h0 h1 h2
      · simpa [h0] using eq_comm
      · simpa [h1] using eq_comm
      · simpa [h2] using eq_comm
      · simp [h0, h1, h2]
    simpa using hdata

theorem matchesRecord_iff : matchesRecord C r cert = true ↔ r.Covers C cert := by
  rw [← matchCertificate_iff, matchesRecord]
  rcases matchCertificate C cert r with err | matched <;> simp

theorem ite_ok_iff {found : Prop} [Decidable found] {err : String} :
    (if found then Except.ok true else .error err) = .ok true ↔ found := by
  split <;> simp_all

theorem matchCertificateToTLSA_iff :
    matchCertificateToTLSA C leaf chain r = .ok true ↔
      (r.IsEndEntity ∧ r.Covers C leaf) ∨ ∃ anchor ∈ leaf :: chain, r.Anchors C anchor := by
  unfold matchCertificateToTLSA TLSARecord.IsEndEntity TLSARecord.Anchors
  split_ifs with h0 h2 hEE
  · rw [verifyPKIXTA, ite_ok_iff, any_eq_true]
    simp [h0, matchesRecord_iff, and_comm]
  · rw [verifyDANETA, ite_ok_iff, any_eq_true]
    simp [h2, matchesRecord_iff]
  · rw [matchCertificate_iff]
    simp [h0, h2, hEE]
  · simp [h0, h2, hEE]

/-- Some record is matched, in one of the ways the code knows. -/
def Accepted (C : Crypto) (records : List TLSARecord) (leaf : Certificate)
    (chain : List Certificate) : Prop :=
  ∃ r ∈ records, (r.IsEndEntity ∧ r.Covers C leaf) ∨ ∃ anchor ∈ leaf :: chain, r.Anchors C anchor

theorem recordMatches_iff :
    recordMatches C leaf chain r = true ↔
      (r.IsEndEntity ∧ r.Covers C leaf) ∨ ∃ anchor ∈ leaf :: chain, r.Anchors C anchor := by
  rw [← matchCertificateToTLSA_iff, recordMatches]
  rcases matchCertificateToTLSA C leaf chain r with err | matched <;> simp

/-- Either a record is matched, or the verification ends in an error. -/
theorem verifyCertificate_cases (C : Crypto) (records : List TLSARecord) (leaf : Certificate)
    (chain : List Certificate) :
    (Accepted C records leaf chain ∧ ∃ r, verifyCertificate C leaf chain records = .ok r) ∨
      (¬ Accepted C records leaf chain ∧
        ∃ err, verifyCertificate C leaf chain records = .error err) := by
  unfold verifyCertificate Accepted
  by_cases hnil : records = []
  · exact .inr ⟨by simp [hnil], _, if_pos hnil⟩
  · rw [if_neg hnil]
    rcases hfind : records.find? (recordMatches C leaf chain) with - | r
    · refine .inr ⟨?_, _, rfl⟩
      rintro ⟨r, hr, hmatch⟩
      exact find?_eq_none.mp hfind r hr (recordMatches_iff.mpr hmatch)
    · refine .inl ⟨⟨r, mem_of_find?_eq_some hfind, ?_⟩, r, rfl⟩
      exact recordMatches_iff.mp (find?_some hfind)

end Matching

/-! ### The handshake -/

section Handshake

variable {T : Tables} {C : Crypto} {strictMode : Bool} {s : State} {x : Exchange} {now : Time}
  {hostname : String} {port : ℤ} {rawCerts : List (List UInt8)} {tlsa : TLSALookupResult}

/-- The server presented `leaf` and, with it, the certificates `chain`. -/
def Presented (C : Crypto) (rawCerts : List (List UInt8)) (leaf : Certificate)
    (chain : List Certificate) : Prop :=
  ∃ raw rest, rawCerts = raw :: rest ∧ C.parseCertificate raw = .ok leaf ∧ chain = C.parsed rest

variable {raw : List UInt8} {rest : List (List UInt8)} {leaf : Certificate}

theorem presented_cons {leaf' : Certificate} {chain : List Certificate}
    (hparse : C.parseCertificate raw = .ok leaf) :
    Presented C (raw :: rest) leaf' chain ↔ leaf' = leaf ∧ chain = C.parsed rest := by
  constructor
  · rintro ⟨raw', rest', hraw, hp, rfl⟩
    cases hraw
    rw [hparse] at hp
    cases hp
    exact ⟨rfl, rfl⟩
  · rintro ⟨rfl, rfl⟩
    exact ⟨raw, rest, rfl, hparse, rfl⟩

/-- The callback with records in force, for a leaf that can be parsed. -/
theorem verifyPeerCertificate_cons (hlookup : (s.lookupTLSA T x now hostname port).1 = (tlsa, none))
    (hforce : tlsa.records ≠ []) (hparse : C.parseCertificate raw = .ok leaf) :
    (s.verifyPeerCertificate T C strictMode x now hostname port (raw :: rest)).1 = none ↔
      Accepted C tlsa.records leaf (C.parsed rest) := by
  rcases hl : s.lookupTLSA T x now hostname port with ⟨⟨result, err⟩, s'⟩
  rw [hl] at hlookup
  cases hlookup
  simp only [State.verifyPeerCertificate, State.verifyHostname, hparse, hl, verifyAgainst,
    if_neg hforce]
  rcases verifyCertificate_cases C tlsa.records leaf (C.parsed rest) with
    ⟨hacc, r, hr⟩ | ⟨hacc, err, herr⟩
  · simp [hr, hacc]
  · simp [herr, hacc]

theorem verifyPeerCertificate_iff
    (hlookup : (s.lookupTLSA T x now hostname port).1 = (tlsa, none)) (hforce : tlsa.records ≠ []) :
    (s.verifyPeerCertificate T C strictMode x now hostname port rawCerts).1 = none ↔
      ∃ leaf chain, Presented C rawCerts leaf chain ∧ Accepted C tlsa.records leaf chain := by
  rcases rawCerts with - | ⟨raw, rest⟩
  · simp [State.verifyPeerCertificate, Presented]
  · rcases hparse : C.parseCertificate raw with err | leaf
    · simp [State.verifyPeerCertificate, Presented, hparse]
    · simp [verifyPeerCertificate_cons hlookup hforce hparse, presented_cons hparse]

/-- **With TLSA records in force, a handshake that succeeds authenticates the
leaf exactly if it is authenticated whenever some presented certificate is
covered by a trust-anchor record**: that such a certificate has signed for the
leaf is for the list to guarantee, not for the code. -/
theorem authenticated_iff (T : Tables) (C : Crypto) (SignedBy : Certificate → Certificate → Prop)
    (strictMode : Bool) (s : State) (x : Exchange) (now : Time) (hostname : String) (port : ℤ)
    (rawCerts : List (List UInt8)) (tlsa : TLSALookupResult)
    (hlookup : (s.lookupTLSA T x now hostname port).1 = (tlsa, none)) (hforce : tlsa.records ≠ []) :
    ((s.verifyPeerCertificate T C strictMode x now hostname port rawCerts).1 = none →
        ∃ leaf chain, Presented C rawCerts leaf chain ∧
          Authenticated C SignedBy tlsa.records leaf chain) ↔
      ∀ leaf chain, Presented C rawCerts leaf chain →
        (∃ r ∈ tlsa.records, ∃ anchor ∈ leaf :: chain, r.Anchors C anchor) →
        Authenticated C SignedBy tlsa.records leaf chain := by
  rw [verifyPeerCertificate_iff hlookup hforce]
  constructor
  · rintro h leaf chain ⟨raw, rest, rfl, hparse, rfl⟩ ⟨r, hr, hanchor⟩
    obtain ⟨leaf', chain', hpresented, hauth⟩ :=
      h ⟨leaf, _, (presented_cons hparse).mpr ⟨rfl, rfl⟩, r, hr, .inr hanchor⟩
    obtain ⟨rfl, rfl⟩ := (presented_cons hparse).mp hpresented
    exact hauth
  · rintro h ⟨leaf, chain, hpresented, r, hr, ⟨hEE, hcovers⟩ | hanchor⟩
    · exact ⟨leaf, chain, hpresented, .inl ⟨r, hr, hEE, hcovers⟩⟩
    · exact ⟨leaf, chain, hpresented, h leaf chain hpresented ⟨r, hr, hanchor⟩⟩

end Handshake

/-! ### A list with a certificate of somebody else -/

/-- An authentic answer: the certificate `[1]` is the trust anchor. -/
def anchorAnswer : Exchange where
  udp := .ok
    { authenticatedData := true
      answer := [{ ttl := 3600, data := .tlsa 2 0 0 "01" }] }
  tcp := .error "connection refused"
  answeredAt := 0
  checks := fun _ _ => false

def anchorRecord : TLSARecord where
  usage := 2
  selector := 0
  matchingType := 0
  certificate := [1]
  ttl := 3600
  domain := "mx.example"

/-- The leaf `[0]`, followed by the certificate `[1]` of the trust anchor. -/
def appendedList : List (List UInt8) := [[0], [1]]

def anchorDial : Dial where
  rawCerts := appendedList
  checked := 0
  lookup := anchorAnswer
  verified := 0
  relookup := anchorAnswer

theorem anchorAnswer_lookup :
    (State.lookupTLSA plainTables {} anchorAnswer 0 "mx.example" 25).1 =
      ({ records := [anchorRecord], dnssecValid := true }, none) := rfl

theorem appendedList_presented {leaf : Certificate} {chain : List Certificate} :
    Presented bareCrypto appendedList leaf chain ↔
      leaf = { raw := [0] } ∧ chain = [{ raw := [1] }] :=
  presented_cons (show bareCrypto.parseCertificate [0] = .ok { raw := [0] } from rfl)

theorem anchorRecord_covers {cert : Certificate} :
    anchorRecord.Covers bareCrypto cert ↔ cert.raw = [1] := by
  simp [TLSARecord.Covers, anchorRecord, extractCertificateData, eq_comm]

/-- Where the anchor has signed for the leaf, the handshake succeeds and the
leaf is authenticated. -/
theorem authenticated_signed :
    let SignedBy : Certificate → Certificate → Prop := fun c i => c.raw = [0] ∧ i.raw = [1]
    (State.verifyPeerCertificate plainTables bareCrypto false {} anchorAnswer 0 "mx.example" 25
        appendedList).1 = none ∧
      ∃ leaf chain, Presented bareCrypto appendedList leaf chain ∧
        Authenticated bareCrypto SignedBy [anchorRecord] leaf chain := by
  intro SignedBy
  refine ⟨rfl, (authenticated_iff plainTables bareCrypto SignedBy false {} anchorAnswer 0 "mx.example"
    25 appendedList _ anchorAnswer_lookup (cons_ne_nil _ _)).mpr ?_ rfl⟩
  intro leaf chain hpresented _
  obtain ⟨rfl, rfl⟩ := appendedList_presented.mp hpresented
  refine .inr ⟨anchorRecord, mem_singleton_self _, { raw := [1] }, by simp, .inr rfl,
    anchorRecord_covers.mpr rfl, .single ⟨by simp, rfl, rfl⟩⟩

/-- Nobody has signed anything, and the connection counts as authenticated by
DANE: the server only had to append the certificate of the trust anchor. -/
theorem appended_anchor_accepted :
    (State.dialSMTP plainTables bareCrypto {} {} anchorDial "mx.example").1 = .ok .dane ∧
      ∀ leaf chain, Presented bareCrypto appendedList leaf chain →
        ¬ Authenticated bareCrypto (fun _ _ => False) [anchorRecord] leaf chain := by
  refine ⟨rfl, ?_⟩
  rintro leaf chain hpresented (⟨r, hr, hEE, -⟩ | ⟨r, hr, anchor, -, -, hcovers, hconnected⟩)
  · rw [mem_singleton.mp hr] at hEE
    exact absurd hEE (by simp [TLSARecord.IsEndEntity, anchorRecord])
  · obtain ⟨rfl, rfl⟩ := appendedList_presented.mp hpresented
    rw [mem_singleton.mp hr, anchorRecord_covers] at hcovers
    -- without signatures only the leaf is connected to the leaf
    rcases hconnected.cases_head with rfl | ⟨-, ⟨-, h⟩, -⟩
    · exact absurd hcovers (by simp)
    · exact h

end Dane

end EmailService
