/-
EmailService/Routes.lean

Configured transports: `ValidateRoutes` and `selectRoute`
(internal/delivery/routes.go).

`selectRoute` packs the order of preference into one number.  `prefers_iff` says
that the number orders the matching routes as documented: an exact domain over a
suffix, a longer suffix over a shorter one, a suffix over `*`, and then a route for
the sender over a general one.

`ValidateRoutes` compares the sender domains of two routes by `ToLower`, and
`selectRoute` compares them with the sender by `EqualFold`.  A sender may so select
two routes of one domain, and then the first of the list wins
(`folded_senders`).  `selects_preferred_iff` says that this is the only way to an
answer that depends on the order of the list.
-/
import EmailService.TransportPolicy

namespace EmailService.Routes

open GoStrings List Option String
open TransportPolicy (splitHostPort)
open Sts (atoi)

/-! ### `ValidateRoutes` -/

/-- What `ValidateRoutes` finds wrong. -/
inductive RouteError
  /-- "invalid or duplicate transport domain" -/
  | domain (domain : String)
  /-- "invalid wildcard transport" -/
  | wildcard (pattern : String)
  /-- "invalid sender transport selector" -/
  | sender
  /-- "invalid next hop" -/
  | nextHop (address : String)
  /-- "connector mTLS requires TLS and both client_cert/client_key" -/
  | clientCert
  /-- "connector authentication requires TLS, username and password_env" -/
  | authentication
  deriving DecidableEq

/-- `strings.ContainsAny`. -/
def containsAny (s chars : String) : Bool := s.toList.any (· ∈ chars.toList)

/-- The checks of one next hop. -/
def checkHop (h : NextHop) : Except RouteError Unit :=
  let valid := match splitHostPort h.address with
    | none => false
    | some (host, port) =>
      match atoi port with
      | none => false
      | some n => host ≠ "" && 1 ≤ n && n ≤ 65535
  if !valid then .error (.nextHop h.address)
  else if (h.clientCert ≠ "" ∨ h.clientKey ≠ "") ∧
      (!h.requireTLS ∨ h.clientCert = "" ∨ h.clientKey = "") then .error .clientCert
  else if (h.username ≠ "" ∨ h.passwordEnv ≠ "") ∧
      (!h.requireTLS ∨ h.username = "" ∨ h.passwordEnv = "") then .error .authentication
  else .ok ()

/-- The key under which a route is remembered. -/
def routeKey (U : CaseTables) (r : Route) : String :=
  toLower U r.domain ++ "|" ++ toLower U r.senderDomain

/-- The checks of one route, after routes with the keys `seen`. -/
def checkRoute (U : CaseTables) (seen : List String) (r : Route) : Except RouteError Unit :=
  let d := toLower U r.domain
  if d = "" ∨ d = "*." ∨ containsAny d " /\r\n@" ∨ routeKey U r ∈ seen ∨ r.nextHops = [] then
    .error (.domain r.domain)
  else if '*' ∈ d.toList ∧ d ≠ "*" ∧ (!hasPrefix d "*." ∨ '*' ∈ d.toList.drop 2) then
    .error (.wildcard d)
  else if r.priority < 0 ∨ containsAny r.senderDomain " /\r\n@*" then .error .sender
  else r.nextHops.forM checkHop

def validateRoutesFrom (U : CaseTables) : List String → List Route → Except RouteError Unit
  | _, [] => .ok ()
  | seen, r :: rest =>
    match checkRoute U seen r with
    | .error err => .error err
    | .ok () => validateRoutesFrom U (routeKey U r :: seen) rest

/-- `ValidateRoutes`. -/
def validateRoutes (U : CaseTables) (routes : List Route) : Except RouteError Unit :=
  validateRoutesFrom U [] routes

section Validation

variable {U : CaseTables} {seen : List String} {r : Route} {routes : List Route}

theorem checkRoute_ok (h : checkRoute U seen r = .ok ()) :
    routeKey U r ∉ seen ∧ r.nextHops ≠ [] := by
  rw [checkRoute] at h
  split at h
  · cases h
  · next hdomain =>
    simp only [not_or] at hdomain
    exact hdomain.2.2.2

theorem validateRoutesFrom_ok (h : validateRoutesFrom U seen routes = .ok ()) :
    (routes.map (routeKey U)).Nodup ∧
      ∀ r ∈ routes, routeKey U r ∉ seen ∧ r.nextHops ≠ [] := by
  induction routes generalizing seen with
  | nil => exact ⟨nodup_nil, nofun⟩
  | cons r rest ih =>
    rw [validateRoutesFrom] at h
    split at h
    · cases h
    · next hr =>
      obtain ⟨hnodup, hrest⟩ := ih h
      refine ⟨?_, forall_mem_cons.mpr ⟨checkRoute_ok hr, fun r' hr' => ?_⟩⟩
      · rw [map_cons, nodup_cons]
        refine ⟨fun hmem => ?_, hnodup⟩
        obtain ⟨r', hr', hkey⟩ := mem_map.mp hmem
        exact (hrest r' hr').1 (hkey ▸ mem_cons_self)
      · obtain ⟨hkey, hhops⟩ := hrest r' hr'
        exact ⟨fun hmem => hkey (mem_cons_of_mem _ hmem), hhops⟩

/-- No two routes of an accepted list have one key, and all have hops. -/
theorem validateRoutes_ok (h : validateRoutes U routes = .ok ()) :
    (∀ r ∈ routes, ∀ r' ∈ routes, routeKey U r = routeKey U r' → r = r') ∧
      ∀ r ∈ routes, r.nextHops ≠ [] := by
  obtain ⟨hnodup, hall⟩ := validateRoutesFrom_ok h
  exact ⟨fun r hr r' hr' => inj_on_of_nodup_map hnodup hr hr', fun r hr => (hall r hr).2⟩

end Validation

/-! ### Preference -/

/-- How a route's domain matches. -/
inductive RouteMatch
  | exact
  | suffix (pattern : String)
  | any

section Preference

variable (U : CaseTables) (domain : String)

/-- The destination and the sender domain as they are compared. -/
def destinationOf : String := toLower U (trimSuffix domain ".")
variable (sender : String)

def senderOf : String := ((afterLast sender '@').map (toLower U)).getD ""

variable (r : Route)

/-- How a route matches a destination, if it does. -/
def matchOf : Option RouteMatch :=
  let pattern := toLower U r.domain
  if pattern = domain then some .exact
  else if hasPrefix pattern "*." ∧ hasSuffix domain (ofList (pattern.toList.drop 1)) then
    some (.suffix pattern)
  else if pattern = "*" then some .any
  else none

/-- Exact over suffix, longer suffix over shorter, suffix over `*`. -/
def RouteMatch.Above : RouteMatch → RouteMatch → Prop
  | .exact, .suffix _ => True
  | .exact, .any => True
  | .suffix p, .suffix p' => p'.utf8ByteSize < p.utf8ByteSize
  | .suffix _, .any => True
  | _, _ => False

/-- The sender is one the route is for. -/
def ForSender : Prop :=
  r.senderDomain = "" ∨ senderOf U sender ≠ "" ∧ equalFold U r.senderDomain (senderOf U sender)

instance (sender : String) (r : Route) : Decidable (ForSender U sender r) :=
  inferInstanceAs (Decidable (_ ∨ _ ∧ _))

/-- The route matches destination and sender. -/
def Matches : Prop :=
  (matchOf U (destinationOf U domain) r).isSome ∧ ForSender U sender r

/-- The first route is to be taken before the second. -/
def Prefers (r' : Route) : Prop :=
  ∃ m m', matchOf U (destinationOf U domain) r = some m ∧
    matchOf U (destinationOf U domain) r' = some m' ∧
    (m.Above m' ∨ ¬ m'.Above m ∧ r.senderDomain ≠ "" ∧ r'.senderDomain = "")

/-- A matching route over which no matching one is preferred. -/
def Maximal (routes : List Route) (domain sender : String) (r : Route) : Prop :=
  r ∈ routes ∧ Matches U domain sender r ∧
    ∀ r' ∈ routes, Matches U domain sender r' → ¬ Prefers U domain r' r

/-- `selectRoute` gives the hops of the only maximal route, nothing without a match, and the
same for every order of the routes. -/
def SelectsPreferred (D : MailDelivery) : Prop :=
  ∀ domain sender,
    ((∃ r ∈ D.routes, Matches U domain sender r) → ∃! r, Maximal U D.routes domain sender r) ∧
    (∀ r, Maximal U D.routes domain sender r → selectRoute U D domain sender = r.nextHops) ∧
    (selectRoute U D domain sender = [] ↔ ¬ ∃ r ∈ D.routes, Matches U domain sender r) ∧
    ∀ D' : MailDelivery, D'.routes.Perm D.routes →
      selectRoute U D' domain sender = selectRoute U D domain sender

/-- No sender is one for which there are two routes of one domain. -/
def Distinguished (routes : List Route) : Prop :=
  ∀ r ∈ routes, ∀ r' ∈ routes, toLower U r.domain = toLower U r'.domain →
    r.senderDomain ≠ "" → r'.senderDomain ≠ "" →
      ∀ sender, ForSender U sender r → ForSender U sender r' → r = r'

end Preference

/-! ### The score -/

section Score

variable {U : CaseTables} {domain sender : String} {r r' : Route} {m m' : RouteMatch}

/-- The score of a match. -/
def RouteMatch.score (domain : String) : RouteMatch → ℤ
  | .exact => 100000 + domain.utf8ByteSize
  | .suffix pattern => pattern.utf8ByteSize
  | .any => 0

theorem routeScore_eq (U : CaseTables) (domain : String) (r : Route) :
    routeScore U domain r = (matchOf U domain r).map (RouteMatch.score domain) := by
  rw [routeScore, matchOf]
  split
  · next h => rw [h]; rfl
  · split
    · rfl
    · split <;> rfl

theorem utf8ByteSize_eq (s : String) : s.utf8ByteSize = utf8Len s.toList := by
  rw [← utf8ByteSize_ofList, ofList_toList]

/-- Suffixes of one text that are equally long are equal. -/
theorem suffix_unique {cs ds es : List Char} (hc : cs <:+ es) (hd : ds <:+ es)
    (h : utf8Len cs = utf8Len ds) : cs = ds := by
  rcases suffix_or_suffix_of_suffix hc hd with ⟨as, rfl⟩ | ⟨as, rfl⟩
  · rw [utf8Len_append] at h
    rw [utf8Len_eq_zero.mp (by omega : utf8Len as = 0), nil_append]
  · rw [utf8Len_append] at h
    rw [utf8Len_eq_zero.mp (by omega : utf8Len as = 0), nil_append]

/-- What a match says of the pattern. -/
def RouteMatch.Fits (domain pattern : String) : RouteMatch → Prop
  | .exact => pattern = domain
  | .suffix p => p = pattern ∧ ∃ tail, pattern.toList = '*' :: tail ∧ tail <:+ domain.toList
  | .any => pattern = "*"

theorem fits_of_matchOf (h : matchOf U domain r = some m) : m.Fits domain (toLower U r.domain) := by
  rw [matchOf] at h
  split at h
  · next hexact =>
    cases h
    exact hexact
  · split at h
    · next hsuffix =>
      cases h
      refine ⟨rfl, ?_⟩
      obtain ⟨hstar, htail⟩ := hsuffix
      obtain ⟨rest, hrest⟩ := isPrefixOf_iff_prefix.mp hstar
      refine ⟨'.' :: rest, hrest.symm, ?_⟩
      rw [hasSuffix, toList_ofList, ← hrest] at htail
      exact isSuffixOf_iff_suffix.mp htail
    · split at h
      · next hany =>
        cases h
        exact hany
      · cases h

variable {p p' : String} {routes : List Route}

theorem RouteMatch.Fits.suffix_le {pattern : String}
    (h : (RouteMatch.suffix p).Fits domain pattern) :
    0 < p.utf8ByteSize ∧ p.utf8ByteSize ≤ domain.utf8ByteSize + 1 := by
  obtain ⟨rfl, tail, hpattern, htail⟩ := h
  have hle := utf8Len_le_of_suffix htail
  have hstar : '*'.utf8Size = 1 := rfl
  rw [utf8ByteSize_eq, utf8ByteSize_eq, hpattern, utf8Len_cons, hstar]
  omega

/-- **The score orders the matches.** -/
theorem above_iff (h : m.Fits domain p) (h' : m'.Fits domain p') :
    m.Above m' ↔ m'.score domain < m.score domain := by
  cases m <;> cases m' <;> simp only [RouteMatch.Above, RouteMatch.score]
  case exact.exact => simp
  case exact.suffix =>
    have := h'.suffix_le
    simp only [true_iff]
    omega
  case exact.any =>
    simp only [true_iff]
    omega
  case suffix.exact =>
    have := h.suffix_le
    simp only [false_iff]
    omega
  case suffix.suffix => omega
  case suffix.any =>
    have := h.suffix_le
    simp only [true_iff]
    omega
  case any.exact =>
    simp only [false_iff]
    omega
  case any.suffix =>
    simp only [false_iff]
    omega
  case any.any => simp

/-- Matches of one score are of one pattern. -/
theorem pattern_unique (h : m.Fits domain p) (h' : m'.Fits domain p')
    (hscore : m.score domain = m'.score domain) : p = p' := by
  cases m <;> cases m' <;> simp only [RouteMatch.score] at hscore
  case exact.exact => exact h.trans h'.symm
  case exact.suffix =>
    have := h'.suffix_le
    omega
  case exact.any => omega
  case suffix.exact =>
    have := h.suffix_le
    omega
  case suffix.suffix =>
    obtain ⟨rfl, tail, hp, htail⟩ := h
    obtain ⟨rfl, tail', hp', htail'⟩ := h'
    rw [Nat.cast_inj, utf8ByteSize_eq, utf8ByteSize_eq, hp, hp', utf8Len_cons,
      utf8Len_cons, Nat.add_right_cancel_iff] at hscore
    refine toList_injective ?_
    rw [hp, hp', suffix_unique htail htail' hscore]
  case suffix.any =>
    have := h.suffix_le
    omega
  case any.exact => omega
  case any.suffix =>
    have := h'.suffix_le
    omega
  case any.any => exact h.trans h'.symm

/-! ### The choice -/

/-- The number `selectRoute` gives a route with such a match. -/
def weightOf (domain : String) (m : RouteMatch) (r : Route) : ℤ :=
  m.score domain * 2 + if r.senderDomain ≠ "" then 1 else 0

/-- The same of a route; of one that does not match it is not used. -/
def weight (U : CaseTables) (domain : String) (r : Route) : ℤ :=
  weightOf (destinationOf U domain) ((matchOf U (destinationOf U domain) r).getD .any) r

section

variable (h : Matches U domain sender r)

include h

/-- **The weight is the order of preference.** -/
theorem prefers_iff (h' : Matches U domain sender r') :
    Prefers U domain r r' ↔ weight U domain r' < weight U domain r := by
  obtain ⟨m, hm⟩ := isSome_iff_exists.mp h.1
  obtain ⟨m', hm'⟩ := isSome_iff_exists.mp h'.1
  have habove := above_iff (fits_of_matchOf hm) (fits_of_matchOf hm')
  have hbelow := above_iff (fits_of_matchOf hm') (fits_of_matchOf hm)
  have hprefers : Prefers U domain r r' ↔
      m.Above m' ∨ ¬ m'.Above m ∧ r.senderDomain ≠ "" ∧ r'.senderDomain = "" := by
    rw [Prefers, hm, hm']
    simp only [some.injEq, exists_and_left, exists_eq_left']
  rw [hprefers, habove, hbelow, weight, weight, hm, hm', getD_some, getD_some,
    weightOf, weightOf]
  by_cases hs : r.senderDomain = "" <;> by_cases hs' : r'.senderDomain = "" <;>
    simp only [hs, hs', ne_eq, not_true_eq_false, not_false_eq_true, if_true, if_false, and_true,
      and_false, or_false] <;> omega

/-- Routes of one weight have one pattern, and both are for a sender or neither is. -/
theorem same_of_weight (h' : Matches U domain sender r')
    (hweight : weight U domain r = weight U domain r') :
    toLower U r.domain = toLower U r'.domain ∧ (r.senderDomain = "" ↔ r'.senderDomain = "") := by
  obtain ⟨m, hm⟩ := isSome_iff_exists.mp h.1
  obtain ⟨m', hm'⟩ := isSome_iff_exists.mp h'.1
  rw [weight, weight, hm, hm', getD_some, getD_some, weightOf, weightOf] at hweight
  have hscore : m.score (destinationOf U domain) = m'.score (destinationOf U domain) := by
    split_ifs at hweight <;> omega
  refine ⟨pattern_unique (fits_of_matchOf hm) (fits_of_matchOf hm') hscore, ?_⟩
  split_ifs at hweight with hs hs' hs'
  · simp [hs, hs']
  · omega
  · omega
  · simp only [not_not] at hs hs'
    simp [hs, hs']

theorem weight_nonneg : 0 ≤ weight U domain r := by
  obtain ⟨m, hm⟩ := isSome_iff_exists.mp h.1
  have hscore : 0 ≤ m.score (destinationOf U domain) := by
    cases m <;> simp only [RouteMatch.score] <;> omega
  rw [weight, hm, getD_some, weightOf]
  split_ifs <;> omega

end

theorem betterRoute_eq (U : CaseTables) (domain sender : String) (best : ℤ × ℤ × List NextHop)
    (r : Route) :
    (¬ Matches U domain sender r →
      betterRoute U (destinationOf U domain) (senderOf U sender) best r = best) ∧
    (Matches U domain sender r →
      betterRoute U (destinationOf U domain) (senderOf U sender) best r =
        if best.1 < weight U domain r ∨ weight U domain r = best.1 ∧ r.priority < best.2.1 then
          (weight U domain r, r.priority, r.nextHops) else best) := by
  rw [betterRoute, routeScore_eq]
  cases hm : matchOf U (destinationOf U domain) r with
  | none =>
    refine ⟨fun _ => rfl, fun h => ?_⟩
    rw [Matches, hm] at h
    exact absurd h.1 (by simp)
  | some m =>
    have hsender : ForSender U sender r ↔ ¬ (r.senderDomain ≠ "" ∧
        (senderOf U sender = "" ∨ (!equalFold U r.senderDomain (senderOf U sender)) = true)) := by
      rw [ForSender, Bool.not_eq_true', not_and_or, not_or, not_not, Bool.not_eq_false]
    rw [Matches, hm, hsender, weight, hm]
    dsimp only [map_some]
    refine ⟨fun h => if_pos ?_, fun h => if_neg h.2⟩
    by_contra hnot
    exact h ⟨rfl, hnot⟩

/-- **The loop finds a route of the greatest weight.** -/
theorem foldl_betterRoute (U : CaseTables) (domain sender : String) (routes : List Route) :
    let best :=
      routes.foldl (betterRoute U (destinationOf U domain) (senderOf U sender)) (-1, 0, [])
    (best = (-1, 0, []) ∧ ∀ r ∈ routes, ¬ Matches U domain sender r) ∨
      ∃ r ∈ routes, Matches U domain sender r ∧
        best = (weight U domain r, r.priority, r.nextHops) ∧
        ∀ r' ∈ routes, Matches U domain sender r' → weight U domain r' ≤ weight U domain r := by
  induction routes using reverseRecOn with
  | nil => exact .inl ⟨rfl, nofun⟩
  | append_singleton routes r ih =>
    rw [foldl_append, foldl_cons, foldl_nil]
    obtain ⟨hskip, htake⟩ := betterRoute_eq U domain sender
      (routes.foldl (betterRoute U (destinationOf U domain) (senderOf U sender)) (-1, 0, [])) r
    -- what holds of the routes before and of the last one
    have hall : ∀ {P : Route → Prop}, (∀ r' ∈ routes, P r') → P r →
        ∀ r' ∈ routes ++ [r], P r' := by
      intro P hroutes hlast
      simpa [mem_append, or_imp, forall_and] using ⟨hroutes, hlast⟩
    by_cases hr : Matches U domain sender r
    · rw [htake hr]
      rcases ih with ⟨hbest, hnone⟩ | ⟨b, hb, hmatch, hbest, hmax⟩
      · have hpos := weight_nonneg hr
        rw [hbest, if_pos (.inl (by dsimp only; omega))]
        exact .inr ⟨r, by simp, hr, rfl,
          hall (fun r' hr' hmatch => absurd hmatch (hnone r' hr')) fun _ => le_rfl⟩
      · rw [hbest]
        dsimp only
        split_ifs with hbetter
        · refine .inr ⟨r, by simp, hr, rfl, hall (fun r' hr' hmatch' => ?_) fun _ => le_rfl⟩
          have := hmax r' hr' hmatch'
          omega
        · exact .inr ⟨b, mem_append_left _ hb, hmatch, rfl,
            hall hmax fun _ => by omega⟩
    · rw [hskip hr]
      rcases ih with ⟨hbest, hnone⟩ | ⟨b, hb, hmatch, hbest, hmax⟩
      · exact .inl ⟨hbest, hall hnone hr⟩
      · exact .inr ⟨b, mem_append_left _ hb, hmatch, hbest,
          hall hmax fun hmatch' => absurd hmatch' hr⟩

/-- The choice of `selectRoute`. -/
theorem selectRoute_found (U : CaseTables) (D : MailDelivery) (domain sender : String) :
    (selectRoute U D domain sender = [] ∧ ∀ r ∈ D.routes, ¬ Matches U domain sender r) ∨
      ∃ r ∈ D.routes, Matches U domain sender r ∧ selectRoute U D domain sender = r.nextHops ∧
        ∀ r' ∈ D.routes, Matches U domain sender r' → weight U domain r' ≤ weight U domain r := by
  rcases foldl_betterRoute U domain sender D.routes with
    ⟨hbest, hnone⟩ | ⟨r, hr, hmatch, hbest, hmax⟩
  · exact .inl ⟨congrArg (fun best => best.2.2) hbest, hnone⟩
  · exact .inr ⟨r, hr, hmatch, congrArg (fun best => best.2.2) hbest, hmax⟩

/-- Maximal routes are those of the greatest weight. -/
theorem maximal_iff : Maximal U routes domain sender r ↔
    r ∈ routes ∧ Matches U domain sender r ∧
      ∀ r' ∈ routes, Matches U domain sender r' → weight U domain r' ≤ weight U domain r := by
  refine and_congr_right fun _ => and_congr_right fun hmatch => ?_
  refine forall₂_congr fun r' hr' => forall_congr' fun hmatch' => ?_
  rw [prefers_iff hmatch' hmatch, not_lt]

/-- No two routes for a destination and a sender have one weight, if no sender selects two. -/
theorem Distinguished.weight_injective (h : Distinguished U routes)
    (hvalid : validateRoutes U routes = .ok ()) (hr : r ∈ routes) (hr' : r' ∈ routes)
    (hmatch : Matches U domain sender r) (hmatch' : Matches U domain sender r')
    (hweight : weight U domain r = weight U domain r') : r = r' := by
  obtain ⟨hdomain, hgeneral⟩ := same_of_weight hmatch hmatch' hweight
  by_cases hsender : r.senderDomain = ""
  · refine (validateRoutes_ok hvalid).1 r hr r' hr' ?_
    rw [routeKey, routeKey, hdomain, hsender, hgeneral.mp hsender]
  · exact h r hr r' hr' hdomain hsender (fun hs => hsender (hgeneral.mpr hs)) sender hmatch.2
      hmatch'.2

/-- A route for the very destination and the sender has the greatest weight there is. -/
theorem weight_le_exact (hexact : matchOf U (destinationOf U domain) r = some .exact)
    (hsender : r.senderDomain ≠ "") (hmatch : Matches U domain sender r') :
    weight U domain r' ≤ weight U domain r := by
  obtain ⟨m, hm⟩ := isSome_iff_exists.mp hmatch.1
  have hscore : m.score (destinationOf U domain) ≤
      RouteMatch.exact.score (destinationOf U domain) := by
    have habove := above_iff (fits_of_matchOf hm) (fits_of_matchOf hexact)
    by_contra hlt
    rw [not_le, ← habove] at hlt
    cases m <;> exact hlt
  rw [weight, weight, hm, hexact, getD_some, getD_some, weightOf, weightOf,
    if_pos hsender]
  split_ifs <;> omega

/-- A destination for which the domain of a route is exact. -/
theorem destinationOf_domain (U : CaseTables) (r : Route) :
    destinationOf U (r.domain ++ ".") = toLower U r.domain := by
  have htrim : trimSuffix (r.domain ++ ".") "." = r.domain := by
    have hdot : ".".toList = ['.'] := rfl
    rw [trimSuffix, if_pos]
    · refine toList_injective ?_
      rw [toList_ofList, toList_append, hdot]
      simp
    · rw [hasSuffix, isSuffixOf_iff_suffix, toList_append]
      exact suffix_append ..
  rw [destinationOf, htrim]

end Score

/-- **When the choice is the documented one.**  Of an accepted list, `selectRoute` takes the
only maximal route, whatever the order of the list, if and only if no sender selects two
routes of one domain. -/
theorem selects_preferred_iff (U : CaseTables) (D : MailDelivery)
    (hvalid : validateRoutes U D.routes = .ok ()) :
    SelectsPreferred U D ↔ Distinguished U D.routes := by
  constructor
  · intro h r hr r' hr' hdomain hs hs' sender hsender hsender'
    have hexact : matchOf U (destinationOf U (r.domain ++ ".")) r = some .exact := by
      rw [matchOf, if_pos (destinationOf_domain U r).symm]
    have hexact' : matchOf U (destinationOf U (r.domain ++ ".")) r' = some .exact := by
      rw [matchOf, if_pos ((destinationOf_domain U r).trans hdomain).symm]
    have hmatch : Matches U (r.domain ++ ".") sender r := ⟨by rw [hexact]; rfl, hsender⟩
    have hmatch' : Matches U (r.domain ++ ".") sender r' := ⟨by rw [hexact']; rfl, hsender'⟩
    refine ((h (r.domain ++ ".") sender).1 ⟨r, hr, hmatch⟩).unique ?_ ?_
    · exact maximal_iff.mpr ⟨hr, hmatch, fun _ _ => weight_le_exact hexact hs⟩
    · exact maximal_iff.mpr ⟨hr', hmatch', fun _ _ => weight_le_exact hexact' hs'⟩
  · intro h domain sender
    have hunique : ∀ r r', Maximal U D.routes domain sender r →
        Maximal U D.routes domain sender r' → r = r' := by
      intro r r' hr hr'
      rw [maximal_iff] at hr hr'
      exact h.weight_injective hvalid hr.1 hr'.1 hr.2.1 hr'.2.1
        (le_antisymm (hr'.2.2 r hr.1 hr.2.1) (hr.2.2 r' hr'.1 hr'.2.1))
    rcases selectRoute_found U D domain sender with ⟨hnil, hnone⟩ | ⟨r, hr, hmatch, hhops, hmax⟩
    · refine ⟨fun ⟨r, hr, hmatch⟩ => absurd hmatch (hnone r hr),
        fun r hr => absurd hr.2.1 (hnone r hr.1),
        ⟨fun _ ⟨r, hr, hmatch⟩ => hnone r hr hmatch, fun _ => hnil⟩, fun D' hperm => ?_⟩
      rcases selectRoute_found U D' domain sender with ⟨hnil', -⟩ | ⟨r', hr', hmatch', -⟩
      · rw [hnil, hnil']
      · exact absurd hmatch' (hnone r' (hperm.mem_iff.mp hr'))
    · have hmaximal : Maximal U D.routes domain sender r := maximal_iff.mpr ⟨hr, hmatch, hmax⟩
      refine ⟨fun _ => ⟨r, hmaximal, fun r' hr' => hunique r' r hr' hmaximal⟩,
        fun r' hr' => hunique r r' hmaximal hr' ▸ hhops, ⟨fun hnil => ?_, fun hnone => ?_⟩,
        fun D' hperm => ?_⟩
      · exact absurd (hhops.symm.trans hnil) ((validateRoutes_ok hvalid).2 r hr)
      · exact absurd ⟨r, hr, hmatch⟩ hnone
      · rcases selectRoute_found U D' domain sender with
          ⟨-, hnone'⟩ | ⟨r', hr', hmatch', hhops', hmax'⟩
        · exact absurd hmatch (hnone' r (hperm.mem_iff.mpr hr))
        · have hmaximal' : Maximal U D.routes domain sender r' :=
            maximal_iff.mpr ⟨hperm.mem_iff.mp hr', hmatch', fun r'' hr'' =>
              hmax' r'' (hperm.mem_iff.mpr hr'')⟩
          rw [hhops, hhops', hunique r r' hmaximal hmaximal']

/-- Case as it is around the letter s: the long one is lower case, and folds to it. -/
def longTables : CaseTables where
  toLower := Char.toLower
  sameFold a b :=
    let fold (c : Char) := if c = '\u017f' then 's' else c.toLower
    fold a == fold b

/-- Transports for two sender domains. -/
def perSender (other : String) : MailDelivery where
  routes :=
    [{ domain := "*", senderDomain := "s.example", nextHops := [{ address := "a:25" }] },
     { domain := "*", senderDomain := other, nextHops := [{ address := "b:25" }] }]

theorem selects_preferred_iff_perSender :
    validateRoutes longTables (perSender "other.example").routes = .ok () ∧
      SelectsPreferred longTables (perSender "other.example") := by
  have hvalid : validateRoutes longTables (perSender "other.example").routes = .ok () := by
    decide +kernel
  refine ⟨hvalid, (selects_preferred_iff longTables (perSender "other.example") hvalid).mpr ?_⟩
  -- the sender domains are not equally long
  have hfold : ∀ s, equalFold longTables "s.example" s = true →
      equalFold longTables "other.example" s = true → False := by
    intro s h h'
    rw [equalFold, Bool.and_eq_true, beq_iff_eq] at h h'
    exact absurd (h.1.trans h'.1.symm) (by decide)
  intro r hr r' hr' _ hs hs' sender hsender hsender'
  have hfor := (hsender.resolve_left hs).2
  have hfor' := (hsender'.resolve_left hs').2
  simp only [perSender, mem_cons, not_mem_nil, or_false] at hr hr'
  rcases hr with rfl | rfl <;> rcases hr' with rfl | rfl
  · rfl
  · exact (hfold _ hfor hfor').elim
  · exact (hfold _ hfor' hfor).elim
  · rfl

/-- **The order of the list decides**: a sender domain with `s` selects the routes for both
spellings, which `ValidateRoutes` takes to be different. -/
theorem folded_senders :
    validateRoutes longTables (perSender "\u017f.example").routes = .ok () ∧
      ¬ SelectsPreferred longTables (perSender "\u017f.example") := by
  refine ⟨by decide +kernel, fun h => ?_⟩
  have hperm : (perSender "\u017f.example").routes.reverse.Perm
      (perSender "\u017f.example").routes := reverse_perm _
  have hsame := (h "example.org" "u@s.example").2.2.2
    { routes := (perSender "\u017f.example").routes.reverse } hperm
  exact absurd (congrArg (map NextHop.address) hsame) (by decide +kernel)

end EmailService.Routes
