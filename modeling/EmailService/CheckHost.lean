/-
EmailService/CheckHost.lean

The function `check_host` of the SPF specification, which the source cites, and
how far the evaluation in Spf.lean agrees with it.

A published record is a syntax tree (`Record`): the mechanisms `ip4`, `ip6`,
`a`, `mx`, `include` and `all` with their qualifiers, and at most one
`redirect`.  `check_host` is defined on the trees (`checkHost`), while the code
reads the text of them.  An evaluation by the specification stops at the first
trouble: a lookup that fails, an included or redirected name without a record,
more than one record, more than ten terms with lookups.

Main result: `verifySPF_iff`.  A result that is not an error is found by the
code as well (`check_agrees`).  An error is found only where the chain of
redirects from the domain ends in it: the code takes trouble in an `include`,
an `a` or an `mx` for a term that does not match.
-/
import EmailService.Spf

namespace EmailService.Spf

open GoStrings NetIp List Option

/-! ### Records -/

/-- The labels of a domain name. -/
def labels (domain : String) : List String := split (trimSuffix domain ".") '.'

/-- A domain name of several labels. -/
def wellFormed (domain : String) : Bool :=
  2 ≤ (labels domain).length &&
    (labels domain).all (fun l => 1 ≤ l.toList.length && l.toList.length ≤ 63) &&
    domain.toList.length ≤ 254

def nameChar (c : Char) : Bool := c.isAlphanum || c = '-' || c = '_' || c = '.'

/-- The name of a domain in a record.  Its last label is not a number. -/
structure Name where
  text : String
  plain : text.toList.all nameChar = true
  wellFormed : wellFormed text = true
  top : (labels text).getLast?.all (fun l => !l.toList.all Char.isDigit) = true

/-- A network in an `ip4` mechanism; without a length it is one address. -/
structure Ip4Network where
  text : String
  plain : text.toList.all (fun c => c.isDigit || c = '.') = true
  addr : ℕ
  reads : parseIPv4Fields text.toList = some addr
  ones : Option (Fin 33)

/-- A network in an `ip6` mechanism. -/
structure Ip6Network where
  text : String
  plain : text.toList.all (fun c => isHex c || c = ':' || c = '.') = true
  addr : BitVec 128
  reads : parseIPv6 text.toList = some addr
  ones : Option (Fin 129)

/-- The length of a network, as written. -/
def onesText {n : ℕ} : Option (Fin n) → String
  | none => ""
  | some k => "/" ++ toString k.val

inductive Mechanism
  | all
  | ip4 (net : Ip4Network)
  | ip6 (net : Ip6Network)
  | a (target : Option Name)
  | mx (target : Option Name)
  | includes (target : Name)

inductive Qualifier
  | pass | fail | softfail | neutral
  deriving DecidableEq

def Qualifier.result : Qualifier → SPFResult
  | pass => .pass
  | fail => .fail
  | softfail => .softfail
  | neutral => .neutral

def Qualifier.sign : Qualifier → String
  | pass => "+"
  | fail => "-"
  | softfail => "~"
  | neutral => "?"

structure Directive where
  sign : Option Qualifier
  mechanism : Mechanism

/-- The qualifier may be left out, and is `+` then. -/
def Directive.qualifier (d : Directive) : Qualifier := d.sign.getD .pass

inductive Part
  | directive (d : Directive)
  | redirect (target : Name)

def Part.directive? : Part → Option Directive
  | directive d => some d
  | redirect _ => none

def Part.redirect? : Part → Option Name
  | directive _ => none
  | redirect t => some t

/-- A record: its parts, each after one space and perhaps more. -/
structure Record where
  parts : List (ℕ × Part)
  trailing : ℕ
  single : (parts.filterMap fun p => p.2.redirect?).length ≤ 1

def Record.directives (r : Record) : List Directive := r.parts.filterMap fun p => p.2.directive?

def Record.redirect (r : Record) : Option Name := (r.parts.filterMap fun p => p.2.redirect?).head?

def targetText : Option Name → String
  | none => ""
  | some t => ":" ++ t.text

def Mechanism.text : Mechanism → String
  | .all => "all"
  | .ip4 net => "ip4" ++ (":" ++ (net.text ++ onesText net.ones))
  | .ip6 net => "ip6" ++ (":" ++ (net.text ++ onesText net.ones))
  | .a t => "a" ++ targetText t
  | .mx t => "mx" ++ targetText t
  | .includes t => "include" ++ (":" ++ t.text)

def Part.text : Part → String
  | directive d => (d.sign.map Qualifier.sign).getD "" ++ d.mechanism.text
  | redirect t => "redirect=" ++ t.text

/-- The parts with the space before them and after the last one. -/
def body (parts : List (ℕ × Part)) (trailing : ℕ) : List Char :=
  (parts.flatMap fun p => replicate (p.1 + 1) ' ' ++ p.2.text.toList) ++
    replicate trailing ' '

def Record.text (r : Record) : String :=
  String.ofList ("v=spf1".toList ++ body r.parts r.trailing)

/-! ### The content of the DNS -/

/-- A TXT record: one of SPF, or one of another kind. -/
inductive Txt
  | spf (r : Record)
  | other (text : String) (other : hasPrefix text "v=spf1" = false)

def Txt.text : Txt → String
  | spf r => r.text
  | other text _ => text

def Txt.spf? : Txt → Option Record
  | spf r => some r
  | other _ _ => none

/-- The records of names in the DNS, or why they cannot be had for the moment.
A name without records and a name that is missing are alike. -/
structure Content where
  txt : String → Except String (List Txt)
  a : String → Except String (List (BitVec 32))
  aaaa : String → Except String (List { a : BitVec 128 // mapped a = false })
  mx : String → Except String (List String)

variable (U : CaseTables) (c : Content) (ip : IP)

/-- A lookup by `net.Resolver`. -/
def reply {α β : Type} (f : α → β) : Except String (List α) → Dns.Reply β
  | .error err => .error (.temporary err)
  | .ok records => Dns.answer (records.map f)

/-- A lookup of addresses of both kinds: those that can be had. -/
def addressReply (a : Except String (List (BitVec 32)))
    (aaaa : Except String (List { a : BitVec 128 // mapped a = false })) : Dns.Reply IP :=
  match reply IP.v4 a, reply (fun a => IP.v6 a.1 a.2) aaaa with
  | .ok xs, .ok ys => .ok (xs ++ ys)
  | .ok xs, .error _ => .ok xs
  | .error _, .ok ys => .ok ys
  | .error .notFound, .error err => .error err
  | .error err, .error _ => .error err

/-- What the resolver makes of the content. -/
def Content.replies : Replies where
  txt name := reply Txt.text (c.txt (Dns.canonicalName U name))
  ip name := addressReply (c.a (Dns.canonicalName U name)) (c.aaaa (Dns.canonicalName U name))
  mx name := reply id (c.mx (Dns.canonicalName U name))

/-! ### `check_host` -/

/-- What stops an evaluation. -/
inductive Trouble
  | temp | perm
  deriving DecidableEq

def Trouble.result : Trouble → SPFResult
  | temp => .temperror
  | perm => .permerror

/-- An evaluation, with the number of terms with lookups that may still be
met. -/
abbrev Check (α : Type) := StateT ℕ (Except Trouble) α

/-- One term with a lookup. -/
def spend : Check Unit := fun
  | 0 => .error .perm
  | n + 1 => .ok ((), n)

/-- A lookup that fails is a temporary error. -/
def fetch {α : Type} : Except String α → Check α
  | .error _ => fun _ => .error .temp
  | .ok x => fun n => .ok (x, n)

/-- Whether a name has the address of the client, by the records of its
kind. -/
def Content.addressed (name : String) : Except String Bool :=
  match ip with
  | .v4 a => (c.a (Dns.canonicalName U name)).map fun as => decide (a ∈ as)
  | .v6 a _ => (c.aaaa (Dns.canonicalName U name)).map fun as => decide (a ∈ as.map Subtype.val)

/-- The hosts of an `mx` mechanism, one after another. -/
def anyHost : List String → Check Bool
  | [] => pure false
  | host :: rest => do
      if ← fetch (c.addressed U ip (trimSuffix host ".")) then pure true else anyHost rest

variable (net : Ip4Network)

def Ip4Network.length : ℕ := (net.ones.map Fin.val).getD 32

def Ip6Network.length (net : Ip6Network) : ℕ := (net.ones.map Fin.val).getD 128

/-- The client is in the network. -/
def Ip4Network.has : IP → Bool
  | .v4 a => leading (BitVec.ofNat 32 net.addr) net.length == leading a net.length
  | .v6 _ _ => false

def Ip6Network.has (net : Ip6Network) : IP → Bool
  | .v4 _ => false
  | .v6 a _ => leading net.addr net.length == leading a net.length

def targetOf (domain : String) (target : Option Name) : String := (target.map Name.text).getD domain

/-- Whether a mechanism matches, where `check` evaluates another domain. -/
def matchMechanism (check : String → Check (Option Qualifier)) (domain : String) :
    Mechanism → Check Bool
  | .all => pure true
  | .ip4 net => pure (net.has ip)
  | .ip6 net => pure (net.has ip)
  | .a t => do
      spend
      fetch (c.addressed U ip (targetOf domain t))
  | .mx t => do
      spend
      let hosts ← fetch (c.mx (Dns.canonicalName U (targetOf domain t)))
      if ← anyHost U c ip (hosts.take 10) then pure true
      else if 10 < hosts.length then fun _ => .error .perm
      else pure false
  | .includes t => do
      spend
      match ← check t.text with
      | none => fun _ => .error .perm
      | some q => pure (decide (q = .pass))

/-- The directives of a record from left to right, and the redirect after
them. -/
def checkDirectives (check : String → Check (Option Qualifier)) (domain : String)
    (redirect : Option Name) : List Directive → Check Qualifier
  | [] =>
    match redirect with
    | none => pure .neutral
    | some t => do
        spend
        match ← check t.text with
        | none => fun _ => .error .perm
        | some q => pure q
  | d :: rest => do
      if ← matchMechanism U c ip check domain d.mechanism then pure d.qualifier
      else checkDirectives check domain redirect rest

/-- The evaluation of a domain; nothing if it has no record.  The depth is
bounded for the sake of recursion: every level takes one of the terms that may
be met, so that the bound of ten terms is met first. -/
def check : ℕ → String → Check (Option Qualifier)
  | 0, _ => fun _ => .error .perm
  | depth + 1, domain => do
      if wellFormed domain then
        match (← fetch (c.txt (Dns.canonicalName U domain))).filterMap Txt.spf? with
        | [] => pure none
        | [r] => some <$> checkDirectives U c ip (check depth) domain r.redirect r.directives
        | _ => fun _ => .error .perm
      else pure none

/-- **`check_host`**, with ten terms. -/
def checkHost (domain : String) : SPFResult :=
  match check U c ip 11 domain 10 with
  | .error e => e.result
  | .ok (none, _) => .none
  | .ok (some q, _) => q.result

/-! ### The text of networks -/

variable {x : Char} {n : ℕ} {name : String} {b : Bool} {q : Qualifier} {ds : List Directive}

theorem isSpace_eq_false (h₁ : 33 ≤ x.toNat) (h₂ : x.toNat ≤ 126) : isSpace x = false := by
  rw [Bool.eq_false_iff]
  intro h
  simp only [isSpace, Bool.or_eq_true, Bool.and_eq_true, decide_eq_true_eq, mem_cons,
    not_mem_nil, or_false] at h
  rcases h with h | ⟨h, -⟩
  · rcases h with rfl | rfl | rfl | rfl | rfl | rfl | rfl | rfl | rfl | rfl | rfl | rfl | rfl | rfl
      <;> revert h₁ h₂ <;> decide
  · have : ('\u2000').toNat ≤ x.toNat := h
    have hlow : ('\u2000').toNat = 8192 := by decide
    omega

/-- A character of the parts of a record, but for the sign of equality. -/
def partChar (x : Char) : Bool := 33 ≤ x.toNat && x.toNat ≤ 126 && x ≠ '='

theorem partChar_of_toNat (h₁ : 33 ≤ x.toNat) (h₂ : x.toNat ≤ 126) (h₃ : x.toNat ≠ 61) :
    partChar x = true := by
  simp only [partChar, Bool.and_eq_true, decide_eq_true_eq]
  refine ⟨⟨h₁, h₂⟩, ?_⟩
  rintro rfl
  exact h₃ rfl

theorem partChar_isDigit (h : x.isDigit = true) : partChar x = true := by
  simp only [Char.isDigit, Bool.and_eq_true, decide_eq_true_eq] at h
  have h₁ : 48 ≤ x.toNat := h.1
  have h₂ : x.toNat ≤ 57 := h.2
  exact partChar_of_toNat (by omega) (by omega) (by omega)

theorem partChar_letter {first last : Char} (h₁ : first ≤ x) (h₂ : x ≤ last)
    (hfirst : 62 ≤ first.toNat) (hlast : last.toNat ≤ 126) : partChar x = true := by
  have h₁ : first.toNat ≤ x.toNat := h₁
  have h₂ : x.toNat ≤ last.toNat := h₂
  exact partChar_of_toNat (by omega) (by omega) (by omega)

theorem parseOnes_toString :
    ∀ k : Fin 129, parseOnes 128 (toString k.val).toList = some k.val ∧
      (toString k.val).toList.all Char.isDigit = true := by
  decide +kernel

theorem parseOnes_toString_v4 :
    ∀ k : Fin 33, parseOnes 32 (toString k.val).toList = some k.val ∧
      (toString k.val).toList.all Char.isDigit = true := by
  decide +kernel

/-- The character that says which kind of address a text is. -/
def separator (cs : List Char) : Option Char := cs.find? fun x => x ∈ ['.', ':', '%']

theorem separator_append {cs rest : List Char} (h : ∀ x ∈ cs, x ∉ ['.', ':', '%']) :
    separator (cs ++ rest) = separator rest := by
  have hnone : cs.find? (fun x => x ∈ ['.', ':', '%']) = none :=
    find?_eq_none.mpr fun x hx => by simpa using h x hx
  rw [separator, find?_append, hnone]
  rfl

theorem not_separator_isDigit (h : x.isDigit = true) : x ∉ ['.', ':', '%'] := by
  intro hx
  simp only [mem_cons, not_mem_nil, or_false] at hx
  rcases hx with rfl | rfl | rfl <;> exact absurd h (by decide)

theorem not_separator_isHex (h : isHex x = true) : x ∉ ['.', ':', '%'] := by
  intro hx
  simp only [mem_cons, not_mem_nil, or_false] at hx
  rcases hx with rfl | rfl | rfl <;> exact absurd h (by decide)

theorem Ip4Network.separator : separator net.text.toList = some '.' := by
  have hdot : '.' ∈ net.text.toList := by
    by_contra h
    have hno : ∀ x ∈ net.text.toList, (x == '.') = false := fun x hx =>
      beq_eq_false_iff_ne.mpr fun e => h (e ▸ hx)
    have hreads := net.reads
    rw [parseIPv4Fields, splitOn_eq_splitOnP, splitOnP_eq_singleton hno] at hreads
    cases ho : octet net.text.toList <;> simp [ho] at hreads
  obtain ⟨before, after, heq, hbefore⟩ := eq_append_cons_of_mem hdot
  have hplain : ∀ x ∈ before, x ∉ ['.', ':', '%'] := by
    intro x hx
    have := all_eq_true.mp net.plain x (by simp [heq, hx])
    rw [Bool.or_eq_true, decide_eq_true_eq] at this
    exact not_separator_isDigit (this.resolve_right fun e => hbefore (e ▸ hx))
  rw [heq, separator_append hplain]
  rfl

theorem Ip6Network.separator (net : Ip6Network) : separator net.text.toList = some ':' := by
  have hreads := net.reads
  generalize net.text.toList = cs at hreads
  -- before the first colon there are only digits
  have hdigits : ∀ x ∈ cs.takeWhile isHex, x ∉ ['.', ':', '%'] := fun x hx =>
    not_separator_isHex (mem_takeWhile_imp hx)
  unfold parseIPv6 at hreads
  dsimp only at hreads
  split at hreads
  · rfl
  · rfl
  · rw [← takeWhile_append_dropWhile (p := isHex) (l := cs), separator_append hdigits]
    rw [parseGroups] at hreads
    dsimp only at hreads
    by_cases hlength : cs.takeWhile isHex = [] ∨ 4 < (cs.takeWhile isHex).length
    · rw [if_pos hlength] at hreads
      cases hreads
    · rw [if_neg hlength] at hreads
      split at hreads
      next h => cases hreads
      next h => cases hreads
      next h => cases hreads
      next rest h => rw [h]; rfl
      next rest h => rw [h]; rfl
      next h => cases hreads

theorem Ip4Network.no_slash : '/' ∉ net.text.toList := fun h =>
  absurd (all_eq_true.mp net.plain _ h) (by decide)

theorem Ip6Network.no_slash (net : Ip6Network) : '/' ∉ net.text.toList := fun h =>
  absurd (all_eq_true.mp net.plain _ h) (by decide)

theorem cut_length {text : String} (n : ℕ) (htext : '/' ∉ text.toList) :
    cut (text ++ ("/" ++ toString n)) '/' = some (text, toString n) :=
  cut_eq (by simp) htext

/-- The text of a network with its length. -/
theorem parseCIDR_v4 :
    parseCIDR (net.text ++ ("/" ++ toString net.length)) =
      some (.v4 (BitVec.ofNat 32 net.addr) net.length) := by
  have hones : parseOnes 32 (toString net.length).toList = some net.length := by
    unfold Ip4Network.length
    rcases net.ones with - | k
    · decide
    · exact (parseOnes_toString_v4 k).1
  have hseparator := net.separator
  unfold separator at hseparator
  rw [parseCIDR, cut_length _ net.no_slash, bind_some]
  simp only [hseparator, net.reads, bind_some, hones, map_some]

theorem parseCIDR_v6 (net : Ip6Network) :
    parseCIDR (net.text ++ ("/" ++ toString net.length)) = some (.v6 net.addr net.length) := by
  have hones : parseOnes 128 (toString net.length).toList = some net.length := by
    unfold Ip6Network.length
    rcases net.ones with - | k
    · decide
    · exact (parseOnes_toString k).1
  have hseparator := net.separator
  unfold separator at hseparator
  rw [parseCIDR, cut_length _ net.no_slash, bind_some]
  simp only [hseparator, net.reads, bind_some, hones, map_some]

/-- A missing length is filled in. -/
theorem completed_text {text : String} (most : ℕ) (htext : '/' ∉ text.toList)
    (ones : Option (Fin n)) :
    (if '/' ∈ (text ++ onesText ones).toList then text ++ onesText ones
      else text ++ onesText ones ++ ("/" ++ toString most)) =
      text ++ ("/" ++ toString ((ones.map Fin.val).getD most)) := by
  rcases ones with - | k
  · simp [onesText, htext]
  · simp [onesText]

theorem matchIP4_text : matchIP4 ip (net.text ++ onesText net.ones) = net.has ip := by
  cases ip with
  | v6 a native => rfl
  | v4 a =>
    have hcidr := completed_text 32 net.no_slash net.ones
    unfold matchIP4
    dsimp only [IP.to4]
    rw [show ("/32" : String) = "/" ++ toString 32 by decide, hcidr,
      show ((net.ones.map Fin.val).getD 32) = net.length from rfl, parseCIDR_v4]
    rfl

theorem matchIP6_text (net : Ip6Network) :
    matchIP6 ip (net.text ++ onesText net.ones) = net.has ip := by
  cases ip with
  | v4 a => rfl
  | v6 a native =>
    have hcidr := completed_text 128 net.no_slash net.ones
    unfold matchIP6
    dsimp only [IP.to4]
    rw [show ("/128" : String) = "/" ++ toString 128 by decide, hcidr,
      show ((net.ones.map Fin.val).getD 128) = net.length from rfl, parseCIDR_v6]
    exact contains_native native

/-! ### The text of parts -/

theorem partChar_nameChar (h : nameChar x = true) : partChar x = true := by
  simp only [nameChar, Char.isAlphanum, Char.isAlpha, Char.isUpper, Char.isLower,
    Bool.or_eq_true, Bool.and_eq_true, decide_eq_true_eq] at h
  rcases h with ((((⟨h₁, h₂⟩ | ⟨h₁, h₂⟩) | h) | rfl) | rfl) | rfl
  · exact partChar_letter h₁ h₂ (by decide) (by decide)
  · exact partChar_letter h₁ h₂ (by decide) (by decide)
  · exact partChar_isDigit h
  · decide
  · decide
  · decide

theorem partChar_isHex (h : isHex x = true) : partChar x = true := by
  simp only [isHex, Bool.or_eq_true, Bool.and_eq_true, decide_eq_true_eq] at h
  rcases h with (h | ⟨h₁, h₂⟩) | ⟨h₁, h₂⟩
  · exact partChar_isDigit h
  · exact partChar_letter h₁ h₂ (by decide) (by decide)
  · exact partChar_letter h₁ h₂ (by decide) (by decide)

theorem Name.partChar (t : Name) : ∀ x ∈ t.text.toList, partChar x = true := fun x hx =>
  partChar_nameChar (all_eq_true.mp t.plain x hx)

theorem Name.ne_empty (t : Name) : t.text ≠ "" := by
  intro h
  have := t.wellFormed
  rw [h] at this
  exact absurd this (by decide)

theorem onesText_partChar (hn : n ≤ 129) (ones : Option (Fin n)) :
    ∀ x ∈ (onesText ones).toList, partChar x = true := by
  intro x hx
  rcases ones with - | k
  · cases hx
  · rw [onesText, String.toList_append, mem_append] at hx
    rcases hx with hx | hx
    · obtain rfl : x = '/' := by simpa using hx
      decide
    · have hdigits := (parseOnes_toString (k.castLE hn)).2
      exact partChar_isDigit (all_eq_true.mp hdigits x hx)

theorem Mechanism.partChar (m : Mechanism) : ∀ x ∈ m.text.toList, partChar x = true := by
  have happend {s t : String} (hs : ∀ x ∈ s.toList, Spf.partChar x = true)
      (ht : ∀ x ∈ t.toList, Spf.partChar x = true) :
      ∀ x ∈ (s ++ t).toList, Spf.partChar x = true := by
    intro x hx
    rw [String.toList_append, mem_append] at hx
    exact hx.elim (hs x) (ht x)
  have hliteral {s t : String} (hs : s.toList.all Spf.partChar = true) :
      (∀ x ∈ t.toList, Spf.partChar x = true) → ∀ x ∈ (s ++ t).toList, Spf.partChar x = true :=
    happend (all_eq_true.mp hs)
  have htarget : ∀ t, ∀ x ∈ (targetText t).toList, Spf.partChar x = true := by
    rintro (- | t)
    · intro x hx
      cases hx
    · exact hliteral (by decide) t.partChar
  cases m with
  | all => exact all_eq_true.mp (by decide)
  | ip4 net =>
    refine hliteral (by decide) (hliteral (by decide)
      (happend (fun x hx => ?_) (onesText_partChar (by omega) _)))
    have := all_eq_true.mp net.plain x hx
    rw [Bool.or_eq_true, decide_eq_true_eq] at this
    rcases this with h | rfl
    · exact partChar_isDigit h
    · decide
  | ip6 net =>
    refine hliteral (by decide) (hliteral (by decide)
      (happend (fun x hx => ?_) (onesText_partChar le_rfl _)))
    have := all_eq_true.mp net.plain x hx
    rw [Bool.or_eq_true, Bool.or_eq_true, decide_eq_true_eq, decide_eq_true_eq] at this
    rcases this with (h | rfl) | rfl
    · exact partChar_isHex h
    · decide
    · decide
  | a t => exact hliteral (by decide) (htarget t)
  | mx t => exact hliteral (by decide) (htarget t)
  | includes t => exact hliteral (by decide) (hliteral (by decide) t.partChar)

/-- A mechanism as the code reads it: the type and the value. -/
def Mechanism.reading : Mechanism → String × String
  | .all => ("all", "")
  | .ip4 net => ("ip4", net.text ++ onesText net.ones)
  | .ip6 net => ("ip6", net.text ++ onesText net.ones)
  | .a t => ("a", targetOf "" t)
  | .mx t => ("mx", targetOf "" t)
  | .includes t => ("include", t.text)

theorem readMechanism_text (q : SPFResult) (m : Mechanism) :
    readMechanism q m.text = ⟨q, m.reading.1, m.reading.2⟩ := by
  have hcut {s t : String} (hs : ':' ∉ s.toList) :
      readMechanism q (s ++ (":" ++ t)) = ⟨q, s, t⟩ := by
    have : cut (s ++ (":" ++ t)) ':' = some (s, t) := cut_eq (by simp) hs
    rw [readMechanism, this]
  have htarget : ∀ (s : String) (t : Option Name), ':' ∉ s.toList →
      readMechanism q (s ++ targetText t) = ⟨q, s, targetOf "" t⟩ := by
    rintro s (- | t) hs
    · rw [readMechanism, targetText, String.append_empty, cut, if_neg hs]
      rfl
    · exact hcut hs
  cases m with
  | all => rfl
  | ip4 net => exact hcut (by decide)
  | ip6 net => exact hcut (by decide)
  | a t => exact htarget "a" t (by decide)
  | mx t => exact htarget "mx" t (by decide)
  | includes t => exact hcut (by decide)

theorem Mechanism.head (m : Mechanism) :
    ∃ x rest, m.text.toList = x :: rest ∧ qualifierOf x = none := by
  cases m with
  | all => exact ⟨'a', _, rfl, rfl⟩
  | ip4 net => exact ⟨'i', _, by rw [Mechanism.text, String.toList_append]; rfl, rfl⟩
  | ip6 net => exact ⟨'i', _, by rw [Mechanism.text, String.toList_append]; rfl, rfl⟩
  | a t => exact ⟨'a', _, by rw [Mechanism.text, String.toList_append]; rfl, rfl⟩
  | mx t => exact ⟨'m', _, by rw [Mechanism.text, String.toList_append]; rfl, rfl⟩
  | includes t => exact ⟨'i', _, by rw [Mechanism.text, String.toList_append]; rfl, rfl⟩

theorem Qualifier.partChar (q : Qualifier) : ∀ x ∈ q.sign.toList, partChar x = true := by
  cases q <;> exact all_eq_true.mp (by decide)

theorem Directive.partChar (d : Directive) :
    ∀ x ∈ (Part.directive d).text.toList, partChar x = true := by
  intro x hx
  rw [Part.text, String.toList_append, mem_append] at hx
  rcases hx with hx | hx
  · rcases d with ⟨- | q, m⟩
    · cases hx
    · exact q.partChar x hx
  · exact d.mechanism.partChar x hx

/-- **The code reads a directive as it is.** -/
theorem readTerm_directive (d : Directive) :
    readTerm (Part.directive d).text =
      some ⟨d.qualifier.result, d.mechanism.reading.1, d.mechanism.reading.2⟩ := by
  have hno : '=' ∉ (Part.directive d).text.toList := fun h =>
    absurd (d.partChar '=' h) (by decide)
  rw [readTerm, if_neg hno]
  obtain ⟨- | q, m⟩ := d
  · obtain ⟨x, rest, htext, hx⟩ := m.head
    have hpart : (Part.directive ⟨none, m⟩).text = m.text := String.empty_append
    rw [hpart, htext]
    dsimp only
    rw [hx, readMechanism_text]
    rfl
  · have hpart : (Part.directive ⟨some q, m⟩).text.toList = q.sign.toList ++ m.text.toList :=
      String.toList_append
    rw [hpart]
    cases q <;>
      · dsimp only [Qualifier.sign]
        simp [qualifierOf, readMechanism_text]
        rfl

theorem readTerm_redirect (t : Name) : readTerm (Part.redirect t).text = none := by
  rw [readTerm, if_pos]
  rw [Part.text, String.toList_append]
  exact mem_append_left _ (by decide)

theorem isSpace_partChar (h : partChar x = true) : isSpace x = false := by
  simp only [partChar, Bool.and_eq_true, decide_eq_true_eq] at h
  exact isSpace_eq_false h.1.1 h.1.2

theorem Part.not_isSpace (p : Part) : ∀ x ∈ p.text.toList, isSpace x = false := by
  intro x hx
  cases p with
  | directive d => exact isSpace_partChar (d.partChar x hx)
  | redirect t =>
    rw [Part.text, String.toList_append, mem_append] at hx
    rcases hx with hx | hx
    · have hplain : "redirect=".toList.all (fun x => !isSpace x) = true := by decide
      simpa using all_eq_true.mp hplain x hx
    · exact isSpace_partChar (t.partChar x hx)

theorem Part.text_ne_nil (p : Part) : p.text.toList ≠ [] := by
  cases p with
  | directive d =>
    obtain ⟨x, rest, htext, -⟩ := d.mechanism.head
    rw [Part.text, String.toList_append, htext]
    simp
  | redirect t => simp [Part.text]

/-! ### The text of a record -/

theorem body_ends (parts : List (ℕ × Part)) (trailing : ℕ) :
    body parts trailing = [] ∨ ∃ x cs, body parts trailing = x :: cs ∧ isSpace x = true := by
  rcases parts with - | ⟨p, rest⟩
  · rcases trailing with - | n
    · exact .inl rfl
    · exact .inr ⟨' ', _, rfl, by decide⟩
  · exact .inr ⟨' ', _, rfl, by decide⟩

theorem words_body (parts : List (ℕ × Part)) (trailing : ℕ) :
    words (body parts trailing) = parts.map fun p => p.2.text.toList := by
  induction parts with
  | nil => simpa [body, words] using words_spaces trailing []
  | cons p rest ih =>
    have hbody : body (p :: rest) trailing =
        replicate (p.1 + 1) ' ' ++ (p.2.text.toList ++ body rest trailing) := by
      simp [body]
    rw [hbody, words_spaces, words_append p.2.not_isSpace p.2.text_ne_nil
      (body_ends rest trailing), ih]
    rfl

theorem Record.toList_text (r : Record) :
    r.text.toList = "v=spf1".toList ++ body r.parts r.trailing := String.toList_ofList

theorem fields_text (r : Record) : fields r.text = "v=spf1" :: r.parts.map fun p => p.2.text := by
  have hplain : "v=spf1".toList.all (fun x => !isSpace x) = true := by decide
  have hversion : ∀ x ∈ "v=spf1".toList, isSpace x = false := fun x hx => by
    simpa using all_eq_true.mp hplain x hx
  rw [fields_eq, r.toList_text, words_append hversion (by simp) (body_ends _ _), words_body]
  simp

theorem hasPrefix_text (r : Record) : hasPrefix r.text "v=spf1" = true := by
  rw [hasPrefix, r.toList_text, isPrefixOf_iff_prefix]
  exact prefix_append _ _

theorem hasPrefix_redirect (p : Part) :
    hasPrefix p.text "redirect=" = p.redirect?.isSome := by
  cases p with
  | redirect t =>
    rw [hasPrefix, Part.text, String.toList_append]
    exact isPrefixOf_iff_prefix.mpr (prefix_append _ _)
  | directive d =>
    refine Bool.eq_false_iff.mpr fun h => ?_
    obtain ⟨rest, hrest⟩ := isPrefixOf_iff_prefix.mp h
    exact absurd (d.partChar '=' (by simp [← hrest])) (by decide)

theorem redirectTarget_text (r : Record) :
    redirectTarget (r.parts.map fun p => p.2.text) = targetOf "" r.redirect := by
  unfold redirectTarget Record.redirect
  induction r.parts with
  | nil => rfl
  | cons p rest ih =>
    rw [map_cons, find?_cons, hasPrefix_redirect]
    rcases hp : p.2 with d | t
    · simpa [Part.redirect?, hp] using ih
    · simp [Part.redirect?, hp, targetOf, trimPrefix, Part.text, hasPrefix]

/-! ### The code on syntax trees -/

/-- The SPF records of a name, if the code's lookup is not an error. -/
def Content.published (name : String) : Option (List Record) :=
  match c.txt (Dns.canonicalName U name) with
  | .error _ => none
  | .ok [] => none
  | .ok records => some (records.filterMap Txt.spf?)

/-- The code takes a mechanism for a match.  At the last level the hosts of an
`mx` mechanism are not looked at. -/
def hit (deepest : Bool) (passes : String → Bool) (domain : String) : Mechanism → Bool
  | .all => true
  | .ip4 net => net.has ip
  | .ip6 net => net.has ip
  | .a t => hasAddress (c.replies U) ip (targetOf domain t)
  | .mx t =>
    match (c.replies U).mx (targetOf domain t) with
    | .error _ => false
    | .ok hosts => !deepest &&
        hosts.any fun host => hasAddress (c.replies U) ip (trimSuffix host ".")
  | .includes t => passes t.text

/-- `evaluateSPFDomain` on syntax trees. -/
def Content.lead (evaluate : String → Record → SPFResult) (name : String) : SPFResult :=
  match c.published U name with
  | none => .temperror
  | some [] => .none
  | some (r :: _) => evaluate name r

/-- The first directive that hits decides, and the redirect if none does. -/
def settle (hits : Mechanism → Bool) (lead : String → SPFResult) (redirect : Option Name)
    (ds : List Directive) : SPFResult :=
  match ds.find? fun d => hits d.mechanism with
  | some d => d.qualifier.result
  | none =>
    match redirect with
    | none => .neutral
    | some t => lead t.text

/-- `evaluateSPF` on syntax trees. -/
def evaluate : ℕ → String → Record → SPFResult
  | 0, _, _ => .permerror
  | left + 1, domain, r =>
    settle (hit U c ip (left == 0) (fun t => c.lead U (evaluate left) t = .pass) domain)
      (c.lead U (evaluate left)) r.redirect r.directives

theorem settle_cons (hits : Mechanism → Bool) (lead : String → SPFResult) (redirect : Option Name)
    (d : Directive) (ds : List Directive) :
    settle hits lead redirect (d :: ds) =
      if hits d.mechanism then d.qualifier.result else settle hits lead redirect ds := by
  unfold settle
  rw [find?_cons]
  cases hits d.mechanism <;> rfl

variable {U c ip}

theorem matchHosts_eq (dns : Replies) (left : ℕ) (hosts : List String) :
    (matchHosts dns ip left hosts).1 =
      (left ≠ 0 && hosts.any fun host => hasAddress dns ip (trimSuffix host ".")) := by
  induction hosts with
  | nil => simp [matchHosts]
  | cons host rest ih =>
    rw [matchHosts, matchA]
    by_cases hleft : left = 0
    · simpa [hleft] using ih
    · rcases h : hasAddress dns ip (trimSuffix host ".") <;> simp [hleft, h, ih]

variable (U c ip) in
/-- A mechanism is tried as its tree says. -/
theorem evaluateMechanism_reading (left : ℕ) (domain : String) (q : SPFResult) (m : Mechanism)
    (evaluateDomain : String → Logged SPFResult) :
    ∃ log, evaluateMechanism (c.replies U) ip (left + 1) evaluateDomain domain
        ⟨q, m.reading.1, m.reading.2⟩ =
      .tried (hit U c ip (left == 0) (fun t => (evaluateDomain t).1 = .pass) domain m) log := by
  have htarget : ∀ t, (if targetOf "" t ≠ "" then targetOf "" t else domain) =
      targetOf domain t := by
    rintro (- | t)
    · rfl
    · exact if_pos t.ne_empty
  cases m with
  | all => exact ⟨_, rfl⟩
  | ip4 net => exact ⟨_, congrArg (Trial.tried · _) (matchIP4_text ip net)⟩
  | ip6 net => exact ⟨_, congrArg (Trial.tried · _) (matchIP6_text ip net)⟩
  | a t =>
    dsimp only [evaluateMechanism, Mechanism.reading]
    rw [htarget, matchA, if_neg (Nat.succ_ne_zero left)]
    exact ⟨_, rfl⟩
  | mx t =>
    dsimp only [evaluateMechanism, Mechanism.reading]
    rw [htarget, matchMX]
    dsimp only [hit]
    rcases (c.replies U).mx (targetOf domain t) with err | hosts
    · exact ⟨_, rfl⟩
    · refine ⟨_, congrArg (Trial.tried · _) ?_⟩
      dsimp only
      rw [matchHosts_eq]
      cases left <;> rfl
  | includes t =>
    dsimp only [evaluateMechanism, Mechanism.reading]
    rw [if_neg t.ne_empty]
    exact ⟨_, rfl⟩

/-- The loop over the parts finds the first directive that hits. -/
theorem evaluateParts_text (left : ℕ) (domain : String) (redirect : Option Name)
    (evaluateDomain : String → Logged SPFResult) (parts : List Part) :
    (evaluateParts (c.replies U) ip (left + 1) evaluateDomain domain (targetOf "" redirect)
        (parts.map Part.text)).1 =
      settle (hit U c ip (left == 0) (fun t => (evaluateDomain t).1 = .pass) domain)
        (fun t => (evaluateDomain t).1) redirect (parts.filterMap Part.directive?) := by
  induction parts with
  | nil =>
    rw [map_nil, evaluateParts]
    rcases redirect with - | t
    · rfl
    · exact congrArg Prod.fst (if_pos t.ne_empty)
  | cons p rest ih =>
    rw [map_cons, evaluateParts]
    cases p with
    | redirect t =>
      rw [readTerm_redirect]
      exact ih
    | directive d =>
      obtain ⟨log, htried⟩ := evaluateMechanism_reading U c ip left domain
        d.qualifier.result d.mechanism evaluateDomain
      have hcons : (.directive d :: rest).filterMap Part.directive? =
          d :: rest.filterMap Part.directive? := rfl
      rw [readTerm_directive]
      dsimp only
      rw [htried, hcons, settle_cons]
      cases hit U c ip (left == 0) (fun t => (evaluateDomain t).1 = .pass) domain d.mechanism
      · exact ih
      · rfl

/-- The records that the code looks for are the SPF records. -/
theorem filter_text (records : List Txt) :
    (records.map Txt.text).filter (hasPrefix · "v=spf1") =
      (records.filterMap Txt.spf?).map Record.text := by
  induction records with
  | nil => rfl
  | cons record rest ih =>
    cases record with
    | spf r =>
      have hspf : hasPrefix (Txt.spf r).text "v=spf1" = true := hasPrefix_text r
      rw [map_cons, filter_cons, if_pos hspf, ih]
      rfl
    | other text hother =>
      rw [map_cons, filter_cons, if_neg (by simpa [Txt.text] using hother), ih]
      rfl

/-- What the code's lookup of TXT records finds. -/
theorem txt_replies (name : String) :
    match c.published U name with
    | none => ∃ err, (c.replies U).txt name = .error err
    | some rs => ∃ records, (c.replies U).txt name = .ok records ∧
        records.filter (hasPrefix · "v=spf1") = rs.map Record.text := by
  unfold Content.published Content.replies
  dsimp only
  rcases c.txt (Dns.canonicalName U name) with err | _ | ⟨record, rest⟩
  · exact ⟨_, rfl⟩
  · exact ⟨_, rfl⟩
  · exact ⟨_, rfl, filter_text (record :: rest)⟩

theorem evaluateSPFDomain_lead {eval : String → String → Logged SPFResult}
    {tree : String → Record → SPFResult}
    (h : ∀ r domain, (eval (Record.text r) domain).1 = tree domain r) (name : String) :
    (evaluateSPFDomain (c.replies U) eval name).1 = c.lead U tree name := by
  have htxt := txt_replies (U := U) (c := c) name
  unfold evaluateSPFDomain Content.lead
  generalize c.published U name = published at htxt
  rcases published with - | rs
  · obtain ⟨err, herr⟩ := htxt
    rw [herr]
  · obtain ⟨records, hok, hfilter⟩ := htxt
    rw [hok]
    dsimp only
    rw [← head?_filter, hfilter]
    rcases rs with - | ⟨r, rest⟩
    · rfl
    · exact h r name

/-- **The code evaluates the trees of the records.** -/
theorem evaluateSPF_text (left : ℕ) (r : Record) (domain : String) :
    (evaluateSPF (c.replies U) ip left r.text domain).1 = evaluate U c ip left domain r := by
  induction left generalizing r domain with
  | zero => rfl
  | succ left ih =>
    have hlead := evaluateSPFDomain_lead (U := U) (c := c) ih
    rw [evaluateSPF, fields_text]
    dsimp only
    rw [if_neg (by simp), redirectTarget_text,
      show (r.parts.map fun p => p.2.text) = (r.parts.map Prod.snd).map Part.text by simp,
      evaluateParts_text, evaluate]
    simp only [hlead, Record.directives, filterMap_map]
    rfl

/-! ### Results that are not errors -/

section Checks

variable {α β : Type} {n n' : ℕ} {x : Check α} {b : β} {a : α}

theorem bind_ok {f : α → Check β} :
    (x >>= f) n = .ok (b, n') ↔ ∃ a m, x n = .ok (a, m) ∧ f a m = .ok (b, n') := by
  change (x n >>= fun p => f p.1 p.2) = _ ↔ _
  rcases x n with err | ⟨a, m⟩
  · simp [bind, Except.bind]
  · simp [bind, Except.bind]

theorem pure_ok {b : α} : (pure a : Check α) n = .ok (b, n') ↔ a = b ∧ n = n' := by
  change Except.ok (a, n) = _ ↔ _
  simp

theorem map_ok {f : α → β} : (f <$> x) n = .ok (b, n') ↔ ∃ a, x n = .ok (a, n') ∧ f a = b := by
  change (x n >>= fun p => .ok (f p.1, p.2)) = _ ↔ _
  rcases x n with err | ⟨a, m⟩
  · simp [bind, Except.bind]
  · simp [bind, Except.bind, and_comm]

theorem spend_ok : spend n = .ok ((), n') ↔ n = n' + 1 := by
  cases n <;> simp [spend]

theorem fetch_ok {e : Except String α} : fetch e n = .ok (a, n') ↔ e = .ok a ∧ n = n' := by
  cases e <;> simp [fetch]

end Checks

/-- The client's own kind of records decides whether a name has its address. -/
theorem hasAddress_of_addressed (h : c.addressed U ip name = .ok b) :
    hasAddress (c.replies U) ip name = b := by
  unfold Content.addressed at h
  unfold hasAddress Content.replies addressReply
  dsimp only
  cases ip with
  | v4 a =>
    dsimp only at h
    rcases hv4 : c.a (Dns.canonicalName U name) with err | as
    · rw [hv4] at h
      cases h
    · rw [hv4] at h
      obtain rfl : decide (a ∈ as) = b := by simpa [Except.map] using h
      rcases c.aaaa (Dns.canonicalName U name) with err | _ | ⟨y, ys⟩ <;>
        rcases as with - | ⟨x, xs⟩ <;> simp [reply, Dns.answer]
  | v6 a native =>
    dsimp only at h
    rcases hv6 : c.aaaa (Dns.canonicalName U name) with err | as
    · rw [hv6] at h
      cases h
    · rw [hv6] at h
      obtain rfl : decide (a ∈ as.map Subtype.val) = b := by simpa [Except.map] using h
      rcases c.a (Dns.canonicalName U name) with err | _ | ⟨y, ys⟩ <;>
        rcases as with - | ⟨x, xs⟩ <;> simp [reply, Dns.answer]

theorem anyHost_ok {hosts : List String} {n' : ℕ} (h : anyHost U c ip hosts n = .ok (b, n')) :
    n' = n ∧ (hosts.any fun host => hasAddress (c.replies U) ip (trimSuffix host ".")) = b := by
  induction hosts generalizing n with
  | nil =>
    obtain ⟨rfl, rfl⟩ := pure_ok.mp h
    exact ⟨rfl, rfl⟩
  | cons host rest ih =>
    obtain ⟨found, m, hfetch, hrest⟩ := bind_ok.mp h
    obtain ⟨hfound, rfl⟩ := fetch_ok.mp hfetch
    rw [any_cons, hasAddress_of_addressed hfound]
    cases found with
    | false => simpa using ih hrest
    | true =>
      obtain ⟨rfl, rfl⟩ := pure_ok.mp hrest
      exact ⟨rfl, rfl⟩

/-- The evaluation of another domain ends well in the code as well. -/
def Agrees (U : CaseTables) (c : Content) (ip : IP) (left : ℕ)
    (other : String → Check (Option Qualifier)) : Prop :=
  ∀ name n n' o, n < left → other name n = .ok (o, n') → n' ≤ n ∧
    ∀ q, o = some q → ∃ r, c.published U name = some [r] ∧ evaluate U c ip left name r = q.result

variable {other : String → Check (Option Qualifier)} {left n n' : ℕ} {domain : String}

theorem Agrees.lead (h : Agrees U c ip left other) (hn : n < left)
    (hcheck : other name n = .ok (some q, n')) :
    c.lead U (evaluate U c ip left) name = q.result := by
  obtain ⟨r, hpublished, heval⟩ := (h name n n' _ hn hcheck).2 q rfl
  rw [Content.lead, hpublished]
  exact heval

theorem Qualifier.result_eq_pass : q.result = .pass ↔ q = .pass := by
  cases q <;> decide

/-- A mechanism that is decided hits in the code just if it matches. -/
theorem matchMechanism_ok (h : Agrees U c ip left other) (hn : n < left + 1) {m : Mechanism}
    (hm : matchMechanism U c ip other domain m n = .ok (b, n')) :
    n' ≤ n ∧ hit U c ip (left == 0) (fun t => c.lead U (evaluate U c ip left) t = .pass) domain m =
      b := by
  cases m with
  | all =>
    obtain ⟨rfl, rfl⟩ := pure_ok.mp hm
    exact ⟨le_rfl, rfl⟩
  | ip4 net =>
    obtain ⟨rfl, rfl⟩ := pure_ok.mp hm
    exact ⟨le_rfl, rfl⟩
  | ip6 net =>
    obtain ⟨rfl, rfl⟩ := pure_ok.mp hm
    exact ⟨le_rfl, rfl⟩
  | a t =>
    obtain ⟨⟨⟩, k, hspend, hfetch⟩ := bind_ok.mp hm
    obtain rfl := spend_ok.mp hspend
    obtain ⟨haddressed, rfl⟩ := fetch_ok.mp hfetch
    exact ⟨by omega, hasAddress_of_addressed haddressed⟩
  | mx t =>
    obtain ⟨⟨⟩, k, hspend, hrest⟩ := bind_ok.mp hm
    obtain rfl := spend_ok.mp hspend
    obtain ⟨hosts, k', hfetch, hrest⟩ := bind_ok.mp hrest
    obtain ⟨hhosts, rfl⟩ := fetch_ok.mp hfetch
    obtain ⟨found, k', hany, hrest⟩ := bind_ok.mp hrest
    obtain ⟨rfl, hfound⟩ := anyHost_ok hany
    have hdeep : (left == 0) = false := beq_eq_false_iff_ne.mpr (by omega)
    have hhit : hit U c ip (left == 0) (fun t => c.lead U (evaluate U c ip left) t = .pass) domain
        (.mx t) = hosts.any fun host => hasAddress (c.replies U) ip (trimSuffix host ".") := by
      simp only [hit, Content.replies, hhosts, hdeep]
      rcases hosts with - | ⟨host, rest⟩ <;> simp [reply, Dns.answer]
    rw [hhit]
    cases found with
    | true =>
      obtain ⟨rfl, rfl⟩ := pure_ok.mp hrest
      obtain ⟨host, hmem, hhost⟩ := any_eq_true.mp hfound
      exact ⟨by omega, any_eq_true.mpr ⟨host, mem_of_mem_take hmem, hhost⟩⟩
    | false =>
      rw [if_neg Bool.false_ne_true] at hrest
      by_cases hmany : 10 < hosts.length
      · rw [if_pos hmany] at hrest
        cases hrest
      · rw [if_neg hmany] at hrest
        obtain ⟨rfl, rfl⟩ := pure_ok.mp hrest
        rw [take_of_length_le (by omega)] at hfound
        exact ⟨by omega, hfound⟩
  | includes t =>
    obtain ⟨⟨⟩, k, hspend, hrest⟩ := bind_ok.mp hm
    obtain rfl := spend_ok.mp hspend
    obtain ⟨o, k', hcheck, hrest⟩ := bind_ok.mp hrest
    have hle := (h t.text k k' o (by omega) hcheck).1
    cases o with
    | none => cases hrest
    | some q =>
      obtain ⟨rfl, rfl⟩ := pure_ok.mp hrest
      refine ⟨by omega, ?_⟩
      dsimp only [hit]
      rw [h.lead (by omega) hcheck]
      exact decide_eq_decide.mpr Qualifier.result_eq_pass

/-- Directives that are decided end in the code as they should. -/
theorem checkDirectives_ok (h : Agrees U c ip left other) (hn : n < left + 1)
    {redirect : Option Name}
    (hq : checkDirectives U c ip other domain redirect ds n = .ok (q, n')) :
    n' ≤ n ∧
      settle
        (hit U c ip (left == 0) (fun t => c.lead U (evaluate U c ip left) t = .pass) domain)
        (c.lead U (evaluate U c ip left)) redirect ds = q.result := by
  induction ds generalizing n with
  | nil =>
    cases redirect with
    | none =>
      obtain ⟨rfl, rfl⟩ := pure_ok.mp hq
      exact ⟨le_rfl, rfl⟩
    | some t =>
      obtain ⟨⟨⟩, k, hspend, hrest⟩ := bind_ok.mp hq
      obtain rfl := spend_ok.mp hspend
      obtain ⟨o, k', hcheck, hrest⟩ := bind_ok.mp hrest
      have hle := (h t.text k k' o (by omega) hcheck).1
      cases o with
      | none => cases hrest
      | some q' =>
        obtain ⟨rfl, rfl⟩ := pure_ok.mp hrest
        exact ⟨by omega, h.lead (by omega) hcheck⟩
  | cons d rest ih =>
    obtain ⟨b, k, hmatch, hrest⟩ := bind_ok.mp hq
    obtain ⟨hle, hhit⟩ := matchMechanism_ok h hn hmatch
    rw [settle_cons, hhit]
    cases b with
    | true =>
      obtain ⟨rfl, rfl⟩ := pure_ok.mp hrest
      exact ⟨hle, rfl⟩
    | false =>
      obtain ⟨hle', hresult⟩ := ih (by omega) hrest
      exact ⟨by omega, hresult⟩

theorem check_agrees (depth left : ℕ) : Agrees U c ip left (check U c ip depth) := by
  induction depth generalizing left with
  | zero =>
    intro name n n' o _ h
    cases h
  | succ depth ih =>
    intro name n n' o hn h
    rw [check] at h
    by_cases hname : wellFormed name = true
    · rw [if_pos hname] at h
      obtain ⟨records, k, hfetch, h⟩ := bind_ok.mp h
      obtain ⟨hrecords, rfl⟩ := fetch_ok.mp hfetch
      rcases hspf : records.filterMap Txt.spf? with - | ⟨r, - | ⟨r', rest⟩⟩
      · rw [hspf] at h
        obtain ⟨rfl, rfl⟩ := pure_ok.mp h
        exact ⟨le_rfl, nofun⟩
      · rw [hspf] at h
        obtain ⟨q, hdirectives, rfl⟩ := map_ok.mp h
        obtain ⟨left, rfl⟩ : ∃ k, left = k + 1 := ⟨left - 1, by omega⟩
        obtain ⟨hle, hresult⟩ := checkDirectives_ok (ih left) hn hdirectives
        refine ⟨hle, fun q' hq' => ⟨r, ?_, ?_⟩⟩
        · rw [Content.published, hrecords]
          rcases records with - | ⟨record, rest⟩
          · cases hspf
          · exact congrArg some hspf
        · cases hq'
          rw [evaluate, ← hresult]
      · rw [hspf] at h
        cases h
    · rw [if_neg hname] at h
      obtain ⟨rfl, rfl⟩ := pure_ok.mp h
      exact ⟨le_rfl, nofun⟩

/-! ### Errors -/

/-- A result by a directive, or by the end of a record. -/
def SPFResult.conclusive : SPFResult → Bool
  | pass | fail | softfail | neutral => true
  | none | temperror | permerror => false

theorem Qualifier.conclusive (q : Qualifier) : q.result.conclusive = true := by
  cases q <;> rfl

/-- No directive of a record hits, and its redirect leads to a name. -/
def RedirectsTo (U : CaseTables) (c : Content) (ip : IP) (left : ℕ) (domain : String) (r : Record)
    (target : Name) : Prop :=
  (∀ d ∈ r.directives, hit U c ip (left == 0) (fun t => c.lead U (evaluate U c ip left) t = .pass)
    domain d.mechanism = false) ∧ r.redirect = some target

/-- The redirects from a record end without a result: at a name whose lookup is
an error, at one without an SPF record, or after eleven of them. -/
inductive EndsIn (U : CaseTables) (c : Content) (ip : IP) : ℕ → String → Record → SPFResult → Prop
  | tooLong {domain r} : EndsIn U c ip 0 domain r .permerror
  | failing {left domain r target} (h : RedirectsTo U c ip left domain r target)
      (hname : c.published U target.text = none) : EndsIn U c ip (left + 1) domain r .temperror
  | bare {left domain r target} (h : RedirectsTo U c ip left domain r target)
      (hname : c.published U target.text = some []) : EndsIn U c ip (left + 1) domain r .none
  | follow {left domain r target r' rest e} (h : RedirectsTo U c ip left domain r target)
      (hname : c.published U target.text = some (r' :: rest))
      (hends : EndsIn U c ip left target.text r' e) : EndsIn U c ip (left + 1) domain r e

variable {lead : String → SPFResult}

/-- A record without a hit and without a redirect is neutral. -/
theorem settle_of_inconclusive {hits : Mechanism → Bool}
    {redirect : Option Name} (h : (settle hits lead redirect ds).conclusive = false) :
    (∀ d ∈ ds, hits d.mechanism = false) ∧
      ∃ t, redirect = some t ∧ settle hits lead redirect ds = lead t.text := by
  unfold settle at h ⊢
  rcases hfind : ds.find? fun d => hits d.mechanism with - | d
  · rw [hfind] at h
    rcases redirect with - | t
    · cases h
    · exact ⟨fun d hd => by simpa using find?_eq_none.mp hfind d hd, t, rfl, by rw [hfind]⟩
  · rw [hfind] at h
    exact absurd (d.qualifier.conclusive) (by rw [h]; exact Bool.false_ne_true)

theorem settle_redirect {r : Record} {target : Name}
    (h : RedirectsTo U c ip left domain r target) :
    settle (hit U c ip (left == 0) (fun t => c.lead U (evaluate U c ip left) t = .pass) domain)
      lead r.redirect r.directives = lead target.text := by
  have hfind : (r.directives.find? fun d => hit U c ip (left == 0)
      (fun t => c.lead U (evaluate U c ip left) t = .pass) domain d.mechanism) = none :=
    find?_eq_none.mpr fun d hd => by rw [h.1 d hd]; exact Bool.false_ne_true
  unfold settle
  rw [hfind, h.2]

/-- **The code has no result just where the redirects end without one.** -/
theorem evaluate_eq_iff {e : SPFResult} (he : e.conclusive = false) (left : ℕ) (domain : String)
    (r : Record) : evaluate U c ip left domain r = e ↔ EndsIn U c ip left domain r e := by
  constructor
  · intro h
    induction left generalizing domain r with
    | zero =>
      obtain rfl : SPFResult.permerror = e := h
      exact .tooLong
    | succ left ih =>
      rw [evaluate] at h
      obtain ⟨hmiss, t, hredirect, hsettle⟩ := settle_of_inconclusive (h ▸ he)
      have hto : RedirectsTo U c ip left domain r t := ⟨hmiss, hredirect⟩
      rw [hsettle, Content.lead] at h
      rcases hname : c.published U t.text with - | - | ⟨r', rest⟩
      · rw [hname] at h
        exact h ▸ .failing hto hname
      · rw [hname] at h
        exact h ▸ .bare hto hname
      · rw [hname] at h
        exact .follow hto hname (ih t.text r' h)
  · intro h
    induction h with
    | tooLong => rfl
    | failing hto hname => rw [evaluate, settle_redirect hto, Content.lead, hname]
    | bare hto hname => rw [evaluate, settle_redirect hto, Content.lead, hname]
    | follow hto hname hends ih =>
      rw [evaluate, settle_redirect hto, Content.lead, hname]
      exact ih he

/-- The evaluation of a domain ends without a result: at its own records or by
the redirects from there. -/
def EndsAt (U : CaseTables) (c : Content) (ip : IP) (domain : String) (e : SPFResult) : Prop :=
  match c.published U domain with
  | none => e = .temperror
  | some [] => e = .none
  | some [r] => EndsIn U c ip 11 domain r e
  | some _ => e = .permerror

theorem verifySPF_published (domain : String) :
    (verifySPF (c.replies U) ip domain).1 =
      match c.published U domain with
      | none => .temperror
      | some [] => .none
      | some [r] => evaluate U c ip 11 domain r
      | some _ => .permerror := by
  have htxt := txt_replies (U := U) (c := c) domain
  unfold verifySPF
  generalize c.published U domain = published at htxt
  rcases published with - | rs
  · obtain ⟨err, herr⟩ := htxt
    rw [herr]
  · obtain ⟨records, hok, hfilter⟩ := htxt
    rw [hok]
    dsimp only
    rw [hfilter]
    rcases rs with - | ⟨r, - | ⟨r', rest⟩⟩
    · rfl
    · exact evaluateSPF_text 11 r domain
    · rfl

/-- **The code implements `check_host` where that has a result, and where the
redirects end in the error it has.** -/
theorem verifySPF_iff (U : CaseTables) (c : Content) (ip : IP) (domain : String) :
    (verifySPF (c.replies U) ip domain).1 = checkHost U c ip domain ↔
      ((checkHost U c ip domain).conclusive = true ∨
        EndsAt U c ip domain (checkHost U c ip domain)) := by
  rcases hresult : (checkHost U c ip domain).conclusive with - | -
  · -- an error, or none
    rw [verifySPF_published, EndsAt]
    simp only [Bool.false_eq_true, false_or]
    rcases c.published U domain with - | - | ⟨r, - | ⟨r', rest⟩⟩
    · exact eq_comm
    · exact eq_comm
    · exact evaluate_eq_iff hresult 11 domain r
    · exact eq_comm
  · refine iff_of_true ?_ (.inl rfl)
    unfold checkHost at hresult ⊢
    rcases hcheck : check U c ip 11 domain 10 with err | ⟨- | q, k⟩
    · rw [hcheck] at hresult
      cases err <;> cases hresult
    · rw [hcheck] at hresult
      cases hresult
    · obtain ⟨-, hq⟩ := check_agrees (U := U) 11 11 domain 10 k _ (by omega) hcheck
      obtain ⟨r, hpublished, heval⟩ := hq q rfl
      rw [verifySPF_published, hpublished]
      exact heval

/-- A domain that includes another one and lets no one else send. -/
def partnerRecord : Record where
  parts := [(0, .directive ⟨none, .includes
      ⟨"part.example", by decide, by decide +kernel, by decide +kernel⟩⟩),
    (0, .directive ⟨some .fail, .all⟩)]
  trailing := 0
  single := by decide

/-- A DNS in which the lookup of the partner's records ends as given. -/
def partnerDns (partner : Except String (List Txt)) : Content where
  txt name :=
    if name = "mail.example" then .ok [.spf partnerRecord]
    else if name = "part.example" then partner
    else .ok []
  a _ := .ok []
  aaaa _ := .ok []
  mx _ := .ok []

/-- **Trouble in an included domain ends in `fail`, and a missing domain in
`temperror`.** -/
theorem include_falls_through :
    partnerRecord.text = "v=spf1 include:part.example -all" ∧
      (verifySPF ((partnerDns (.error "timeout")).replies asciiTables) (.v4 0x01020304#32)
        "mail.example").1 = .fail ∧
      checkHost asciiTables (partnerDns (.error "timeout")) (.v4 0x01020304#32) "mail.example" =
        .temperror ∧
      (verifySPF ((partnerDns (.ok [])).replies asciiTables) (.v4 0x01020304#32)
        "mail.example").1 = .fail ∧
      checkHost asciiTables (partnerDns (.ok [])) (.v4 0x01020304#32) "mail.example" =
        .permerror ∧
      (verifySPF ((partnerDns (.ok [])).replies asciiTables) (.v4 0x01020304#32)
        "none.example").1 = .temperror ∧
      checkHost asciiTables (partnerDns (.ok [])) (.v4 0x01020304#32) "none.example" = .none := by
  decide +kernel

end EmailService.Spf
