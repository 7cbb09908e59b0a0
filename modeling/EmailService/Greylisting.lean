/-
EmailService/Greylisting.lean

Greylisting (internal/greylisting/greylisting.go): the first message of a
triplet of client address, sender and recipient is put off, and a later one is
let through once the delay is over.

What is remembered of a triplet is filed under the hash of its three texts
joined with bars.  A call acts on the cell of its own hash and on no other, so
that triplets with different hashes do not see each other
(`isolated_iff`).  A bar is an ordinary character of a mailbox name, and it can
stand on either side of the joint: two triplets with one text share a cell, and
the second is let through for the first one's waiting (`bars_collide`).
-/
import EmailService.Entry
import EmailService.GoStrings
import EmailService.JsonText
import EmailService.Sha256

namespace EmailService.Greylisting

open List Function Sha256

/-- Client address, sender and recipient, as bytes. -/
structure Triplet where
  ip : List UInt8
  fromAddr : List UInt8
  toAddr : List UInt8
  deriving DecidableEq

/-- `greylistEntry`. -/
structure Entry where
  triplet : Triplet
  firstSeen : Time
  lastAttempt : Time
  attempts : ℕ
  whitelisted : Bool

/-- The configuration in `Greylisting`. -/
structure Config where
  retryDelay : Duration
  expiry : Duration
  whitelistTTL : Duration

def second : Duration := 1000000000
def hour : Duration := 3600 * second

/-- The configuration of `NewGreylisting`. -/
def newGreylisting : Config := ⟨300 * second, 24 * hour, 720 * hour⟩

/-- The two maps in `Greylisting`. -/
structure State where
  triplets : List UInt8 → Option Entry := fun _ => none
  whitelist : List UInt8 → Option Time := fun _ => none

/-- The text that is hashed. -/
def Triplet.text (t : Triplet) : List UInt8 := t.ip ++ 124 :: (t.fromAddr ++ 124 :: t.toAddr)

/-- `hashTriplet`. -/
def hashTriplet (t : Triplet) : List UInt8 := Json.hexEncode (sum256 t.text)

/-- Whether to greylist, and when to try again.  `Check` returns no error. -/
abbrev Outcome := Bool × Duration

variable (g : Config) (s : State)

/-- `Check` below the whitelist. -/
def checkTriplet (t : Triplet) (now : Time) : Outcome × State :=
  match s.triplets (hashTriplet t) with
  | none =>
    ((true, g.retryDelay),
      { s with triplets :=
          update s.triplets (hashTriplet t) (some ⟨t, now, now, 1, false⟩) })
  | some entry =>
    let entry := { entry with lastAttempt := now, attempts := entry.attempts + 1 }
    let timeSinceFirst := timeSub now entry.firstSeen
    if timeSinceFirst < g.retryDelay then
      ((true, g.retryDelay - timeSinceFirst),
        { s with triplets := update s.triplets (hashTriplet t) (some entry) })
    else
      ((false, 0),
        { triplets := update s.triplets (hashTriplet t)
            (some { entry with whitelisted := true })
          whitelist := update s.whitelist (hashTriplet t)
            (some (now + g.whitelistTTL)) })

/-- `Check`, which reads the clock at `now₁` for the whitelist and at `now₂` for
the triplets. -/
def check (t : Triplet) (now₁ now₂ : Time) : Outcome × State :=
  match s.whitelist (hashTriplet t) with
  | some expiry =>
    if now₁ < expiry then ((false, 0), s)
    else
      checkTriplet g
        { s with whitelist := update s.whitelist (hashTriplet t) none } t now₂
  | none => checkTriplet g s t now₂

/-- `CleanupExpired`. -/
def cleanupExpired (now : Time) : State where
  triplets key := (s.triplets key).filter fun entry => timeSub now entry.lastAttempt ≤ g.expiry
  whitelist key := (s.whitelist key).filter fun expiry => now ≤ expiry

/-! ### Histories -/

inductive Event
  | check (t : Triplet) (now₁ now₂ : Time)
  | cleanup (now : Time)

def Event.times : Event → List Time
  | .check _ now₁ now₂ => [now₁, now₂]
  | .cleanup now => [now]

def State.step : Event → State
  | .check t now₁ now₂ => (check g s t now₁ now₂).2
  | .cleanup now => cleanupExpired g s now

def State.run (h : List Event) : State := h.foldl (State.step g) s

/-- The clock does not go back. -/
def Timely (h : List Event) : Prop := (h.flatMap Event.times).Pairwise (· ≤ ·)

/-- Traffic of other triplets is left out. -/
def Event.concerns (t : Triplet) : Event → Bool
  | .check u _ _ => u = t
  | .cleanup _ => true

/-- The outcome of a call for `t` after a history. -/
def outcome (h : List Event) (t : Triplet) (now₁ now₂ : Time) : Outcome :=
  (check g (State.run g {} h) t now₁ now₂).1

/-- **Isolation**: as long as only triplets of `K` are checked, the outcome for
`t` is the one without the traffic of other triplets. -/
def Isolated (K : Set Triplet) (t : Triplet) : Prop :=
  ∀ h now₁ now₂, (∀ u a b, Event.check u a b ∈ h → u ∈ K) →
    Timely (h ++ [.check t now₁ now₂]) →
    outcome g h t now₁ now₂ = outcome g (h.filter (Event.concerns t)) t now₁ now₂

/-! ### One cell -/

/-- Two states are the same as far as `key` is concerned. -/
structure Agree (key : List UInt8) (s s' : State) : Prop where
  triplets : s.triplets key = s'.triplets key
  whitelist : s.whitelist key = s'.whitelist key

variable {g} {key : List UInt8} {s s' s'' : State} {t : Triplet}

theorem Agree.refl : Agree key s s := ⟨rfl, rfl⟩

theorem Agree.trans (h : Agree key s s') (h' : Agree key s' s'') : Agree key s s'' :=
  ⟨h.triplets.trans h'.triplets, h.whitelist.trans h'.whitelist⟩

theorem checkTriplet_agree (h : Agree (hashTriplet t) s s') (now : Time) :
    (checkTriplet g s t now).1 = (checkTriplet g s' t now).1 ∧
      Agree (hashTriplet t) (checkTriplet g s t now).2 (checkTriplet g s' t now).2 := by
  unfold checkTriplet
  rw [← h.triplets]
  cases s.triplets (hashTriplet t) with
  | none => exact ⟨rfl, by simp, h.whitelist⟩
  | some entry =>
    dsimp only
    split
    · exact ⟨rfl, by simp, h.whitelist⟩
    · exact ⟨rfl, by simp, by simp⟩

theorem checkTriplet_other (hkey : key ≠ hashTriplet t) (now : Time) :
    Agree key s (checkTriplet g s t now).2 := by
  unfold checkTriplet
  cases s.triplets (hashTriplet t) with
  | none => exact ⟨(update_of_ne hkey _ _).symm, rfl⟩
  | some entry =>
    dsimp only
    split
    · exact ⟨(update_of_ne hkey _ _).symm, rfl⟩
    · exact ⟨(update_of_ne hkey _ _).symm, (update_of_ne hkey _ _).symm⟩

/-- A call reads and writes the cell of its own hash. -/
theorem check_agree (h : Agree (hashTriplet t) s s') (now₁ now₂ : Time) :
    (check g s t now₁ now₂).1 = (check g s' t now₁ now₂).1 ∧
      Agree (hashTriplet t) (check g s t now₁ now₂).2 (check g s' t now₁ now₂).2 := by
  unfold check
  rw [← h.whitelist]
  cases s.whitelist (hashTriplet t) with
  | none => exact checkTriplet_agree h now₂
  | some expiry =>
    dsimp only
    split
    · exact ⟨rfl, h⟩
    · refine checkTriplet_agree ⟨?_, ?_⟩ now₂
      · exact h.triplets
      · simp only [update_self]

theorem check_other (hkey : key ≠ hashTriplet t) (now₁ now₂ : Time) :
    Agree key s (check g s t now₁ now₂).2 := by
  unfold check
  cases s.whitelist (hashTriplet t) with
  | none => exact checkTriplet_other hkey now₂
  | some expiry =>
    dsimp only
    split
    · exact .refl
    · have hdropped : Agree key s
          { s with whitelist := update s.whitelist (hashTriplet t) none } :=
        ⟨rfl, (update_of_ne hkey _ _).symm⟩
      exact hdropped.trans (checkTriplet_other hkey now₂)

theorem cleanupExpired_agree (h : Agree key s s') (now : Time) :
    Agree key (cleanupExpired g s now) (cleanupExpired g s' now) :=
  ⟨by simp only [cleanupExpired, h.triplets], by simp only [cleanupExpired, h.whitelist]⟩

/-! ### Whole histories -/

/-- Without the traffic of other cells a history leads to the same cell. -/
theorem run_filter {h : List Event}
    (hcells : ∀ u a b, Event.check u a b ∈ h → u = t ∨ hashTriplet t ≠ hashTriplet u)
    (hagree : Agree (hashTriplet t) s s') :
    Agree (hashTriplet t) (State.run g s h)
      (State.run g s' (h.filter (Event.concerns t))) := by
  induction h generalizing s s' with
  | nil => exact hagree
  | cons e h ih =>
    have htail : ∀ u a b, .check u a b ∈ h → u = t ∨ hashTriplet t ≠ hashTriplet u :=
      fun u a b hmem => hcells u a b (mem_cons_of_mem e hmem)
    cases e with
    | cleanup now => exact ih htail (cleanupExpired_agree hagree now)
    | check u now₁ now₂ =>
      by_cases hu : u = t
      · subst hu
        rw [filter_cons_of_pos (by simp [Event.concerns])]
        exact ih htail (check_agree hagree now₁ now₂).2
      · -- another triplet has another cell
        rw [filter_cons_of_neg (by simp [Event.concerns, hu])]
        have hne := (hcells u now₁ now₂ mem_cons_self).resolve_left hu
        refine ih htail ⟨?_, ?_⟩
        · exact (check_other hne now₁ now₂).triplets.symm.trans hagree.triplets
        · exact (check_other hne now₁ now₂).whitelist.symm.trans hagree.whitelist

/-- A triplet that was not seen is put off for the whole delay. -/
theorem outcome_nil (now₁ now₂ : Time) : outcome g [] t now₁ now₂ = (true, g.retryDelay) := rfl

variable {u : Triplet} {K : Set Triplet}

/-- After one call with the same hash the waiting has begun. -/
theorem outcome_shared (hkey : hashTriplet u = hashTriplet t) :
    outcome g [.check u 0 0] t 1 1 ≠ (true, g.retryDelay) := by
  have hfirst : State.run g {} [.check u 0 0] =
      { triplets := update (fun _ => none) (hashTriplet u) (some ⟨u, 0, 0, 1, false⟩) } :=
    rfl
  have hsince : timeSub 1 0 = 1 := rfl
  rw [outcome, hfirst]
  simp only [check, checkTriplet, hkey, update_self, hsince]
  split
  · simp
  · simp

/-- Triplets with digests of their own do not see each other. -/
theorem isolated_of_digests
    (hdistinct : ∀ u ∈ K, sum256 u.text = sum256 t.text → u = t) :
    Isolated g K t := by
  intro h now₁ now₂ hK _
  refine (check_agree (run_filter (fun u a b hmem => ?_) .refl) now₁ now₂).1
  rw [or_iff_not_imp_right, not_not]
  exact fun hkey => hdistinct u (hK u a b hmem) (Json.hexEncode_injective hkey.symm)

/-- Neither the address nor the sender has a bar. -/
def Triplet.Barless (t : Triplet) : Prop := 124 ∉ t.ip ∧ 124 ∉ t.fromAddr

/-- Then there is one way to cut the text. -/
theorem text_injective (hu : u.Barless) (ht : t.Barless) (h : u.text = t.text) : u = t := by
  obtain ⟨ip, sender, rcpt⟩ := u
  obtain ⟨ip', sender', rcpt'⟩ := t
  obtain ⟨rfl, h⟩ := GoStrings.eq_of_append_cons hu.1 ht.1 h
  obtain ⟨rfl, rfl⟩ := GoStrings.eq_of_append_cons hu.2 ht.2 h
  rfl

/-- Without bars, and without a collision of SHA-256, triplets are isolated. -/
theorem isolated_of_barless (hK : ∀ u ∈ K, u.Barless) (ht : t.Barless)
    (hdigest : ∀ u ∈ K, sum256 u.text = sum256 t.text → u.text = t.text) :
    Isolated g K t :=
  isolated_of_digests fun u hu h => text_injective (hK u hu) ht (hdigest u hu h)

/-- **The outcome for a triplet depends on the earlier calls for it alone exactly
if no other triplet has the digest of its text.** -/
theorem isolated_iff (g : Config) (K : Set Triplet) (t : Triplet) :
    Isolated g K t ↔ ∀ u ∈ K, sum256 u.text = sum256 t.text → u = t := by
  constructor
  · intro hisolated u hu hdigest
    by_contra hne
    have hkey : hashTriplet u = hashTriplet t := congrArg Json.hexEncode hdigest
    refine outcome_shared (g := g) hkey ?_
    have hmem : ∀ v a b, .check v a b ∈ [Event.check u 0 0] → v ∈ K := by
      intro v a b hv
      cases mem_singleton.mp hv
      exact hu
    rw [hisolated [.check u 0 0] 1 1 hmem (by simp [Timely, Event.times]),
      filter_cons_of_neg (by simpa [Event.concerns] using hne), filter_nil, outcome_nil]
  · exact isolated_of_digests

/-- A sender with a bar, and a recipient with one. -/
def barredSender : Triplet := ⟨[49], [97, 124, 98], [99]⟩
def barredRecipient : Triplet := ⟨[49], [97], [98, 124, 99]⟩

/-- **One triplet waits for another**: five minutes after `1|a|b|c` was first seen
in one reading, its other reading is let through at once. -/
theorem bars_collide :
    barredSender ≠ barredRecipient ∧
    Timely [.check barredSender 0 0, .check barredRecipient (300 * second) (300 * second)] ∧
    outcome newGreylisting [.check barredSender 0 0] barredRecipient (300 * second)
      (300 * second) = (false, 0) ∧
    outcome newGreylisting ([Event.check barredSender 0 0].filter (Event.concerns barredRecipient))
      barredRecipient (300 * second) (300 * second) = (true, 300 * second) := by
  refine ⟨by decide, ?_, by decide +kernel, by decide +kernel⟩
  simp [Timely, Event.times, second]

end EmailService.Greylisting
