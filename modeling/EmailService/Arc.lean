/-
EmailService/Arc.lean

The chain of ARC sets on a message (internal/security/arc.go).

`AddARCSet` puts three fields on top of a header: what has been found, a
signature of the message, and a seal, a signature of the ARC fields so far.
`VerifyChain` collects the sets and checks both signatures of each.

The cryptography is a parameter.  Ideally a signature is valid just if it has
been made, with that key for that digest, and digests differ if the texts do
(`Scheme.Ideal`).

Main result: `chain_never_passes`.  The seal is made for the ARC fields with the
tags of the seal behind them, and checked for the text of the seal field up to
its signature.  These texts are never the same, so that no chain passes, as it
was sealed or changed in any way.
-/
import EmailService.GoStrings
import EmailService.MailAddress

namespace EmailService.Arc

open GoStrings Utf8

/-! ### Signatures -/

abbrev Bytes := List UInt8

/-- A hash function and signatures of its digests: `SignPKCS1v15` and
`VerifyPKCS1v15`. -/
structure Scheme (Key Pub : Type) where
  hash : Bytes → Bytes
  sign : Key → Bytes → Bytes
  verify : Pub → Bytes → Bytes → Bool
  publicKey : Key → Pub

/-- Texts have different digests, and a signature is valid just if it is among
those made, each with a key for a digest. -/
structure Scheme.Ideal {Key Pub : Type} (S : Scheme Key Pub) (made : List (Key × Bytes)) :
    Prop where
  hash_injective : Function.Injective S.hash
  valid : ∀ p digest sig, S.verify p digest sig = true ↔
    ∃ k, (k, digest) ∈ made ∧ p = S.publicKey k ∧ sig = S.sign k digest

def base64Char (n : ℕ) : Char :=
  "ABCDEFGHIJKLMNOPQRSTUVWXYZabcdefghijklmnopqrstuvwxyz0123456789+/".toList.getD n '='

/-- `base64.StdEncoding.EncodeToString`. -/
def base64Encode : Bytes → List Char
  | [] => []
  | [a] => [base64Char (a.toNat / 4), base64Char (a.toNat % 4 * 16), '=', '=']
  | [a, b] =>
    [base64Char (a.toNat / 4), base64Char (a.toNat % 4 * 16 + b.toNat / 16),
      base64Char (b.toNat % 16 * 4), '=']
  | a :: b :: c :: rest =>
    base64Char (a.toNat / 4) :: base64Char (a.toNat % 4 * 16 + b.toNat / 16) ::
      base64Char (b.toNat % 16 * 4 + c.toNat / 64) :: base64Char (c.toNat % 64) ::
      base64Encode rest

/-- The digest of a text. -/
def Scheme.digest {Key Pub : Type} (S : Scheme Key Pub) (t : String) : Bytes :=
  S.hash (encode t.toList)

/-! ### Reading fields -/

/-- `header[n:]`; `n` bytes make whole runes here. -/
def dropBytes : List Char → ℕ → List Char
  | [], _ => []
  | c :: cs, 0 => c :: cs
  | c :: cs, n + 1 => dropBytes cs (n + 1 - c.utf8Size)

/-- The fields that are signed. -/
def headersToSign : List String :=
  ["from", "to", "cc", "subject", "date", "message-id", "in-reply-to", "references",
    "mime-version", "content-type"]

/-- A field in its canonical form, if its name is one of those signed. -/
def canonicalHeader (U : CaseTables) (header : String) : Option String :=
  (headersToSign.find? fun name => hasPrefix (toLower U header) (name ++ ":")).map fun name =>
    name ++ (":" ++ trimSpace (String.ofList (dropBytes header.toList (name.toList.length + 1))))

/-- `canonicalizeHeaders`. -/
def canonicalizeHeaders (U : CaseTables) (headers : List String) : String :=
  join (headers.filterMap (canonicalHeader U)) "\r\n"

/-- What follows the first empty line. -/
def bodyLines (headers : List String) : List String := (headers.dropWhile (· ≠ "")).drop 1

/-- `bodyHash`. -/
def bodyHash {Key Pub : Type} (S : Scheme Key Pub) (headers : List String) : String :=
  String.ofList (base64Encode (S.digest (String.join ((bodyLines headers).map (· ++ "\r\n")))))

/-- `fmt.Sscanf(part, "i=%d", &instance)`, for an `int` of 64 bits. -/
def scanInstance (part : String) : Option ℤ :=
  if hasPrefix part "i=" then
    (scanInt (part.toList.drop 2)).filter fun n => -2 ^ 63 ≤ n && n < 2 ^ 63
  else none

/-- `extractInstance`. -/
def extractInstance (header : String) : ℤ :=
  ((split header ';').findSome? fun part => scanInstance (trimSpace part)).getD 0

/-- The value of the first part that starts with a tag, as it stands. -/
def tagText (header tag : String) : String :=
  (((split header ';').map trimSpace).find? (hasPrefix · (tag ++ "="))).elim ""
    (trimPrefix · (tag ++ "="))

/-- `extractCV`. -/
def extractCV (arcSeal : String) : String := tagText arcSeal "cv"

/-- `parseTagValue`. -/
def parseTagValue (header tag : String) : String := trimSpace (tagText header tag)

/-- `s[:strings.Index(s, "b=")+2]`, if it occurs. -/
def uptoSignature : List Char → Option (List Char)
  | [] => none
  | [_] => none
  | c :: d :: cs =>
    if c = 'b' ∧ d = '=' then some ['b', '='] else (uptoSignature (d :: cs)).map (c :: ·)

/-! ### Sealing -/

section Sealing

variable {Key Pub : Type} (S : Scheme Key Pub) (U : CaseTables)

/-- `ARCManager`, as far as it signs. -/
structure Manager (Key : Type) where
  domain : String
  selector : String
  privateKey : Key

variable (m : Manager Key)

/-- The tags of the signature of the message before its value; `t` is the time
in seconds. -/
def signatureTags (headers : List String) (inst t : ℤ) : String :=
  "i=" ++ (toString inst ++ ("; a=rsa-sha256; c=relaxed/relaxed; d=" ++ (m.domain ++ ("; s=" ++
    (m.selector ++ ("; t=" ++ (toString t ++ ("; h=" ++ (join headersToSign ":" ++ ("; bh=" ++
    bodyHash S headers))))))))))

/-- The field up to the value of the signature. -/
def signatureInput (headers : List String) (inst t : ℤ) : String :=
  signatureTags S m headers inst t ++ "; b="

/-- The text that `createMessageSignature` signs. -/
def messageText (headers : List String) (inst t : ℤ) : String :=
  canonicalizeHeaders U headers ++ signatureInput S m headers inst t

/-- The signature of a text, as it is written. -/
def signed (k : Key) (t : String) : String := String.ofList (base64Encode (S.sign k (S.digest t)))

/-- `createMessageSignature`. -/
def createMessageSignature (headers : List String) (inst t : ℤ) : String :=
  signatureInput S m headers inst t ++ signed S m.privateKey (messageText S U m headers inst t)

/-- `collectPreviousARCHeaders`. -/
def collectPreviousARCHeaders (headers : List String) (maxInstance : ℤ) : List String :=
  headers.filter fun header => hasPrefix header "ARC-" &&
    (0 < extractInstance header && extractInstance header ≤ maxInstance)

/-- `getChainValidation`. -/
def getChainValidation (inst : ℤ) : String := if inst = 1 then "none" else "pass"

/-- The tags of the seal, up to its value. -/
def sealInput (inst t : ℤ) : String :=
  "i=" ++ (toString inst ++ ("; a=rsa-sha256; d=" ++ (m.domain ++ ("; s=" ++ (m.selector ++
    ("; t=" ++ (toString t ++ ("; cv=" ++ (getChainValidation inst ++ "; b=")))))))))

/-- The text that `createSeal` signs. -/
def sealText (headers : List String) (inst t : ℤ) (arcAuthResults arcMessageSig : String) :
    String :=
  join (collectPreviousARCHeaders headers (inst - 1) ++
    ["ARC-Authentication-Results: " ++ arcAuthResults,
      "ARC-Message-Signature: " ++ arcMessageSig]) "\r\n" ++ sealInput m inst t

/-- `createSeal`. -/
def createSeal (headers : List String) (inst t : ℤ) (arcAuthResults arcMessageSig : String) :
    String :=
  sealInput m inst t ++
    signed S m.privateKey (sealText m headers inst t arcAuthResults arcMessageSig)

/-- One call of `AddARCSet`: the manager, the instance, the findings, and the
times at which it signs. -/
structure Link (Key : Type) where
  manager : Manager Key
  authResults : String
  signTime : ℤ
  sealTime : ℤ

def arcAuthResults (l : Link Key) (inst : ℤ) : String :=
  if l.authResults ≠ "" then
    "i=" ++ toString inst ++ "; " ++ l.manager.domain ++ "; " ++ l.authResults
  else "i=" ++ toString inst ++ "; " ++ l.manager.domain ++ ";"

/-- `AddARCSet`, for an instance from 1 on. -/
def addARCSet (l : Link Key) (headers : List String) (inst : ℤ) : List String :=
  let arcMessageSig := createMessageSignature S U l.manager headers inst l.signTime
  ["ARC-Authentication-Results: " ++ arcAuthResults l inst,
    "ARC-Message-Signature: " ++ arcMessageSig,
    "ARC-Seal: " ++ createSeal S l.manager headers inst l.sealTime (arcAuthResults l inst)
      arcMessageSig] ++ headers

/-- The two signatures that `AddARCSet` makes. -/
def signatures (l : Link Key) (headers : List String) (inst : ℤ) : List (Key × Bytes) :=
  [(l.manager.privateKey, S.digest (messageText S U l.manager headers inst l.signTime)),
    (l.manager.privateKey, S.digest (sealText l.manager headers inst l.sealTime
      (arcAuthResults l inst) (createMessageSignature S U l.manager headers inst l.signTime)))]

/-- The header after sets have been added in order, from an instance on. -/
def sealChain (headers : List String) (inst : ℤ) : List (Link Key) → List String
  | [] => headers
  | l :: rest => sealChain (addARCSet S U l headers inst) (inst + 1) rest

/-- The signatures made on the way. -/
def chainSignatures (headers : List String) (inst : ℤ) : List (Link Key) → List (Key × Bytes)
  | [] => []
  | l :: rest =>
    signatures S U l headers inst ++
      chainSignatures (addARCSet S U l headers inst) (inst + 1) rest

end Sealing

/-! ### Verifying -/

section Verifying

structure ARCSet where
  inst : ℤ
  arcAuthResults : String
  arcMessageSig : String
  arcSeal : String

inductive ARCResult
  | none | pass | fail
  deriving DecidableEq

/-- The field goes into the set, where its name says. -/
def ARCSet.put (set : ARCSet) (header : String) : ARCSet :=
  if hasPrefix header "ARC-Authentication-Results:" then { set with arcAuthResults := header }
  else if hasPrefix header "ARC-Message-Signature:" then { set with arcMessageSig := header }
  else if hasPrefix header "ARC-Seal:" then { set with arcSeal := header }
  else set

/-- The field goes into the set of its instance, which may be new. -/
def putHeader (inst : ℤ) (header : String) : List ARCSet → List ARCSet
  | [] => [ARCSet.put ⟨inst, "", "", ""⟩ header]
  | set :: rest =>
    if set.inst = inst then set.put header :: rest else set :: putHeader inst header rest

def collectSet (sets : List ARCSet) (header : String) : List ARCSet :=
  if extractInstance header = 0 then sets else putHeader (extractInstance header) header sets

/-- `parseARCSets`: as many instances are looked for as there are sets. -/
def parseARCSets (headers : List String) : List ARCSet :=
  let sets := headers.foldl collectSet []
  (List.range sets.length).filterMap fun i => sets.find? (·.inst = (i : ℤ) + 1)

variable {Key Pub : Type} (S : Scheme Key Pub) (U : CaseTables)
  (fetchPublicKey : String → String → Option Pub)

/-- The check of a signature field: its tags, the key, and the text that is
signed, made of the text of the field up to the signature. -/
def verifyField (field : String) (signedData : String → String) : Bool :=
  let selector := parseTagValue field "s"
  let domain := parseTagValue field "d"
  let sigB64 := parseTagValue field "b"
  if selector = "" ∨ domain = "" ∨ sigB64 = "" then false
  else
    match fetchPublicKey selector domain, NetMail.base64Decode sigB64.toList,
      uptoSignature field.toList with
    | some pubKey, some sigBytes, some start =>
      S.verify pubKey (S.digest (signedData (String.ofList start))) sigBytes
    | _, _, _ => false

/-- `verifySeal`. -/
def verifySeal (set : ARCSet) : Bool := verifyField S fetchPublicKey set.arcSeal id

/-- `verifyMessageSignature`. -/
def verifyMessageSignature (set : ARCSet) (headers : List String) : Bool :=
  verifyField S fetchPublicKey set.arcMessageSig fun start =>
    canonicalizeHeaders U headers ++ "\r\n" ++ start

/-- The loop of `VerifyChain`. -/
def verifySets (headers : List String) : ℤ → List ARCSet → Bool
  | _, [] => true
  | expected, set :: rest =>
    set.inst == expected && verifySeal S fetchPublicKey set &&
      verifyMessageSignature S U fetchPublicKey set headers &&
      verifySets headers (expected + 1) rest

/-- `VerifyChain`. -/
def verifyChain (headers : List String) : ARCResult :=
  let sets := parseARCSets headers
  match sets.getLast? with
  | none => .none
  | some lastSet =>
    if verifySets S U fetchPublicKey headers 1 sets then
      if extractCV lastSet.arcSeal = "pass" ∨ extractCV lastSet.arcSeal = "none" then .pass
      else .fail
    else .fail

end Verifying

/-! ### What is signed and what is checked -/

theorem uptoSignature_head {c : Char} {cs v : List Char} (h : uptoSignature (c :: cs) = some v) :
    v.head? = some c := by
  rcases cs with - | ⟨d, cs⟩
  · cases h
  · rw [uptoSignature] at h
    split_ifs at h with hb
    · cases h
      rw [hb.1]
      rfl
    · obtain ⟨v', -, rfl⟩ := Option.map_eq_some_iff.mp h
      rfl

/-- The tag stands at the end of the text that is checked, and nowhere before. -/
theorem uptoSignature_last {l v before after : List Char} (h : uptoSignature l = some v)
    (hv : v = before ++ 'b' :: '=' :: after) : after = [] := by
  induction l generalizing v before with
  | nil => cases h
  | cons c cs ih =>
    rcases cs with - | ⟨d, cs⟩
    · cases h
    · rw [uptoSignature] at h
      split_ifs at h with hb
      · cases h
        have hlength := congrArg List.length hv
        simp only [List.length_cons, List.length_append, List.length_nil] at hlength
        exact List.length_eq_zero_iff.mp (by omega)
      · obtain ⟨v', hv', rfl⟩ := Option.map_eq_some_iff.mp h
        rcases before with - | ⟨x, before⟩
        · -- the tag at the very beginning has been ruled out
          obtain ⟨rfl, rfl⟩ := List.cons.inj hv
          have hhead := uptoSignature_head hv'
          exact absurd ⟨rfl, (Option.some_inj.mp hhead).symm⟩ hb
        · exact ih hv' (List.cons.inj hv).2

section Texts

variable {Key Pub : Type} {S : Scheme Key Pub} {U : CaseTables}
  (m : Manager Key) (headers : List String) (inst t : ℤ)

theorem signatureTags_head : ∃ rest, (signatureTags S m headers inst t).toList = 'i' :: rest := by
  rw [signatureTags, String.toList_append]
  exact ⟨_, rfl⟩

theorem sealInput_head : ∃ rest, (sealInput m inst t).toList = 'i' :: rest := by
  rw [sealInput, String.toList_append]
  exact ⟨_, rfl⟩

/-- The text of a message signature starts with a small letter. -/
theorem messageText_head : (messageText S U m headers inst t).toList.head? ≠ some 'A' := by
  have hnames : ∀ name ∈ headersToSign, name.toList.head?.any (· ≠ 'A') = true := by decide
  unfold messageText canonicalizeHeaders join
  rcases hlist : headers.filterMap (canonicalHeader U) with - | ⟨first, rest⟩
  · obtain ⟨rest, hrest⟩ := signatureTags_head (S := S) m headers inst t
    simp [signatureInput, hrest]
  · -- the first field that is signed starts with its name
    obtain ⟨header, -, hheader⟩ := List.mem_filterMap.mp (hlist ▸ List.mem_cons_self :
      first ∈ headers.filterMap (canonicalHeader U))
    obtain ⟨name, hname, rfl⟩ := Option.map_eq_some_iff.mp hheader
    have hhead := hnames name (List.mem_of_find?_eq_some hname)
    rcases hcs : name.toList with - | ⟨c, cs⟩
    · rw [hcs] at hhead
      cases hhead
    · have hA : c ≠ 'A' := by simpa [hcs] using hhead
      rcases rest with - | ⟨second, rest⟩
      · simp [hcs, hA]
      · simp [String.intercalate_cons_cons, hcs, hA]

/-- The text of a seal has the signature of the message inside. -/
theorem sealText_inner (t' : ℤ) (authResults : String) :
    ∃ before after, (sealText m headers inst t' authResults
      (createMessageSignature S U m headers inst t)).toList = before ++ 'b' :: '=' :: after ∧
        after ≠ [] := by
  obtain ⟨rest, hseal⟩ := sealInput_head m inst t'
  -- the field with that signature is the last one before the tags of the seal
  obtain ⟨fields, hfields⟩ : ∃ fields, join (collectPreviousARCHeaders headers (inst - 1) ++
      ["ARC-Authentication-Results: " ++ authResults,
        "ARC-Message-Signature: " ++ createMessageSignature S U m headers inst t]) "\r\n" =
      fields ++ ("ARC-Message-Signature: " ++ createMessageSignature S U m headers inst t) := by
    rw [← List.singleton_append, ← List.append_assoc, join,
      String.intercalate_append_of_ne_nil (by simp) (by simp), String.intercalate_singleton]
    exact ⟨_, rfl⟩
  refine ⟨fields.toList ++ "ARC-Message-Signature: ".toList ++
      (signatureTags S m headers inst t).toList ++ [';', ' '],
    (signed S m.privateKey (messageText S U m headers inst t)).toList ++ 'i' :: rest, ?_, by simp⟩
  rw [sealText, hfields, createMessageSignature, signatureInput]
  simp [hseal]

/-- **The text of a seal field up to its signature is never a text that has been
signed.** -/
theorem uptoSignature_ne (l : Link Key) (headers : List String) (inst : ℤ) {field : String}
    {start : List Char} (hfield : hasPrefix field "ARC-Seal:" = true)
    (hstart : uptoSignature field.toList = some start) :
    start ≠ (messageText S U l.manager headers inst l.signTime).toList ∧
      start ≠ (sealText l.manager headers inst l.sealTime (arcAuthResults l inst)
        (createMessageSignature S U l.manager headers inst l.signTime)).toList := by
  constructor
  · intro heq
    obtain ⟨rest, hrest⟩ := List.isPrefixOf_iff_prefix.mp hfield
    rw [← hrest] at hstart
    refine messageText_head (S := S) (U := U) l.manager headers inst l.signTime ?_
    rw [← heq]
    exact uptoSignature_head hstart
  · intro heq
    obtain ⟨before, after, hsplit, hne⟩ := sealText_inner (S := S) (U := U) l.manager headers inst
      l.signTime l.sealTime (arcAuthResults l inst)
    exact hne (uptoSignature_last hstart (heq.trans hsplit))

/-- Every signature made is that of a message or of a seal. -/
theorem mem_chainSignatures {links : List (Link Key)} {headers : List String} {inst : ℤ}
    {k : Key} {digest : Bytes} (h : (k, digest) ∈ chainSignatures S U headers inst links) :
    ∃ (l : Link Key) (hs : List String) (i : ℤ), (k, digest) ∈ signatures S U l hs i := by
  induction links generalizing headers inst with
  | nil => cases h
  | cons l rest ih =>
    rcases List.mem_append.mp h with hfirst | hrest
    · exact ⟨l, headers, inst, hfirst⟩
    · exact ih hrest

end Texts

/-! ### The sets -/

/-- The seal of a set is a seal field, if there is one. -/
def ARCSet.Sound (set : ARCSet) : Prop :=
  set.arcSeal = "" ∨ hasPrefix set.arcSeal "ARC-Seal:" = true

theorem ARCSet.Sound.put {set : ARCSet} (h : set.Sound) (header : String) :
    (set.put header).Sound := by
  unfold ARCSet.put
  split_ifs with h₁ h₂ h₃
  · exact h
  · exact h
  · exact .inr h₃
  · exact h

theorem sound_putHeader {sets : List ARCSet} (h : ∀ set ∈ sets, set.Sound) (inst : ℤ)
    (header : String) : ∀ set ∈ putHeader inst header sets, set.Sound := by
  induction sets with
  | nil =>
    intro set hset
    rw [List.mem_singleton.mp hset]
    exact .put (.inl rfl) header
  | cons first rest ih =>
    have hrest := ih fun set hset => h set (List.mem_cons_of_mem _ hset)
    rw [putHeader]
    split_ifs
    · exact List.forall_mem_cons.mpr ⟨(h first List.mem_cons_self).put header,
        fun set hset => h set (List.mem_cons_of_mem _ hset)⟩
    · exact List.forall_mem_cons.mpr ⟨h first List.mem_cons_self, hrest⟩

theorem sound_parseARCSets (headers : List String) : ∀ set ∈ parseARCSets headers, set.Sound := by
  have hfold : ∀ sets : List ARCSet, (∀ set ∈ sets, set.Sound) →
      ∀ set ∈ headers.foldl collectSet sets, set.Sound := by
    induction headers with
    | nil => exact fun sets h => h
    | cons header rest ih =>
      intro sets h
      refine ih _ ?_
      unfold collectSet
      split_ifs
      · exact h
      · exact sound_putHeader h _ header
  intro set hset
  obtain ⟨i, -, hfind⟩ := List.mem_filterMap.mp hset
  exact hfold [] (fun _ h => nomatch h) set (List.mem_of_find?_eq_some hfind)

section Chain

variable {Key Pub : Type} {S : Scheme Key Pub} {U : CaseTables}
  {fetchPublicKey : String → String → Option Pub} {made : List (Key × Bytes)}

variable {headers : List String}

/-- No seal is valid. -/
theorem verifySeal_eq_false {links : List (Link Key)} {inst : ℤ}
    (hideal : S.Ideal (chainSignatures S U headers inst links)) {set : ARCSet} (hset : set.Sound) :
    verifySeal S fetchPublicKey set = false := by
  rw [Bool.eq_false_iff]
  intro hverify
  unfold verifySeal verifyField at hverify
  dsimp only at hverify
  split_ifs at hverify with htags
  split at hverify
  next pubKey sigBytes start hkey hsig hstart =>
    rcases hset with hempty | hfield
    · rw [hempty] at hstart
      cases hstart
    · obtain ⟨k, hmade, -, -⟩ := (hideal.valid _ _ _).mp hverify
      obtain ⟨l, hs, i, hmem⟩ := mem_chainSignatures hmade
      obtain ⟨hmessage, hseal⟩ := uptoSignature_ne (S := S) (U := U) l hs i hfield hstart
      have htext : ∀ t : String, S.digest (.ofList start) = S.digest t →
          start = t.toList := by
        intro t ht
        have hbytes := congrArg pieces (hideal.hash_injective ht)
        rw [pieces_encode, pieces_encode, String.toList_ofList] at hbytes
        exact List.map_injective_iff.mpr (fun _ _ => Option.some.inj) hbytes
      simp only [signatures, List.mem_cons, Prod.mk.injEq, List.not_mem_nil, or_false] at hmem
      rcases hmem with ⟨-, heq⟩ | ⟨-, heq⟩
      · exact hmessage (htext _ heq)
      · exact hseal (htext _ heq)
  next => cases hverify

/-- A chain passes only with a valid seal. -/
theorem verifyChain_ne_pass
    (hseals : ∀ set : ARCSet, set.Sound → verifySeal S fetchPublicKey set = false) :
    verifyChain S U fetchPublicKey headers ≠ .pass := by
  have hsound := sound_parseARCSets headers
  unfold verifyChain
  dsimp only
  rcases hsets : parseARCSets headers with - | ⟨set, rest⟩
  · exact nofun
  · rw [hsets] at hsound
    have hverify : verifySets S U fetchPublicKey headers 1 (set :: rest) = false := by
      rw [verifySets, hseals set (hsound set List.mem_cons_self), Bool.and_false, Bool.false_and,
        Bool.false_and]
    rw [hverify]
    split
    · exact nofun
    · exact nofun

/-- **No chain of sets passes**, neither as it has been sealed nor changed in any
way. -/
theorem chain_never_passes (S : Scheme Key Pub) (U : CaseTables)
    (fetchPublicKey : String → String → Option Pub) (headers : List String)
    (links : List (Link Key)) (hideal : S.Ideal (chainSignatures S U headers 1 links)) :
    verifyChain S U fetchPublicKey (sealChain S U headers 1 links) ≠ .pass ∧
      ∀ changed, verifyChain S U fetchPublicKey changed ≠ .pass := by
  have hnever : ∀ hs, verifyChain S U fetchPublicKey hs ≠ .pass := fun hs =>
    verifyChain_ne_pass fun set hset => verifySeal_eq_false hideal hset
  exact ⟨hnever _, hnever⟩

end Chain

/-! ### One set -/

/-- Texts are their own digests; there is one signature, which is valid for
those signed. -/
def plainScheme (made : List (Unit × Bytes)) : Scheme Unit Unit where
  hash := id
  sign _ _ := [1]
  verify p digest sig := decide ((p, digest) ∈ made ∧ sig = [1])
  publicKey := id

def letter : List String := ["From: a@x.example", "", "Hi"]

/-- A relay adds a set. -/
def relay : Link Unit := ⟨⟨"r.example", "arc", ()⟩, "spf=pass", 0, 0⟩

def relayScheme : Scheme Unit Unit :=
  plainScheme (chainSignatures (plainScheme []) asciiTables letter 1 [relay])

theorem plainScheme_ideal (made : List (Unit × Bytes)) : (plainScheme made).Ideal made where
  hash_injective := Function.injective_id
  valid := by
    intro p digest sig
    rw [plainScheme, decide_eq_true_iff]
    constructor
    · rintro ⟨hmem, rfl⟩
      exact ⟨p, hmem, rfl, rfl⟩
    · rintro ⟨k, hmem, rfl, rfl⟩
      exact ⟨hmem, rfl⟩

/-- The signatures do not depend on which of them are valid. -/
theorem chainSignatures_plain (made : List (Unit × Bytes)) (U : CaseTables)
    (headers : List String) (inst : ℤ) (links : List (Link Unit)) :
    chainSignatures (plainScheme made) U headers inst links =
      chainSignatures (plainScheme []) U headers inst links := by
  induction links generalizing headers inst with
  | nil => rfl
  | cons l rest ih =>
    have hset : addARCSet (plainScheme made) U l headers inst =
        addARCSet (plainScheme []) U l headers inst := rfl
    rw [chainSignatures, chainSignatures, ih, hset]
    rfl

theorem relayScheme_ideal :
    relayScheme.Ideal (chainSignatures relayScheme asciiTables letter 1 [relay]) := by
  rw [relayScheme, chainSignatures_plain]
  exact plainScheme_ideal _

theorem chain_never_passes_relay :
    verifyChain relayScheme asciiTables (fun _ _ => some ())
      (sealChain relayScheme asciiTables letter 1 [relay]) ≠ .pass :=
  (chain_never_passes relayScheme asciiTables (fun _ _ => some ()) letter [relay]
    relayScheme_ideal).1

/-- **A chain of one set is not even found**: no part of the fields between
semicolons starts with the number of the set. -/
theorem sealed_chain_not_found :
    relayScheme.Ideal (chainSignatures relayScheme asciiTables letter 1 [relay]) ∧
      (letter.all fun header => !hasPrefix header "ARC-") = true ∧
      verifyChain relayScheme asciiTables (fun _ _ => some ())
        (sealChain relayScheme asciiTables letter 1 [relay]) = .none :=
  ⟨relayScheme_ideal, by decide +kernel, by decide +kernel⟩

end EmailService.Arc
