/-
EmailService/Mailstorm.lean

The storm guard (internal/mailstorm/guard.go).  `Admit` lets a message in or
trips the circuit of its sender, `Pause` trips a circuit by hand and `Resume`
clears it.  A circuit counts its trips, and each trip of a recurrent storm
doubles the cooldown of the one before, up to a cap.

The circuits of all identities are in one map.  `Admit` drops those whose pause
has been over for twice the longest cooldown, and `Pause` all those whose pause
is over: a pause of one identity makes the guard forget the trips of others
(`pause_forgets`).  Where no circuit has expired when `Pause` is called, and the
file can be written, trips are only counted up (`storms_escalate`).

The limiters of golang.org/x/time/rate are a parameter.  Nothing depends on what
they answer.
-/
import EmailService.Entry

namespace EmailService.Mailstorm

open Std

/-- What the guard uses of `rate.Limiter`. -/
structure Rate (L : Type) where
  newLimiter : Float → ℤ → L
  tokensAt : L → Time → Float
  allowN : L → Time → ℤ → Bool × L

def second : Duration := 1000000000

/-- The configuration of a guard, and what `Validate` makes sure of. -/
structure Config where
  enabled : Bool := true
  messages : ℤ := 120
  recipients : ℤ := 1000
  globalMessages : ℤ := 2000
  duplicateLimit : ℤ := 20
  tripAfter : ℤ := 3
  baselineWindows : ℤ := 5
  anomalyFactor : Float := 4
  anomalyFloor : ℤ := 20
  maxIdentities : ℤ := 10000
  window : Duration := 60 * second
  cooldown : Duration := 300 * second
  maxCooldown : Duration := 3600 * second
  cooldown_pos : 0 < cooldown := by decide
  cooldown_le : cooldown ≤ maxCooldown := by decide

/-- `Circuit`. -/
structure Circuit where
  key : String := ""
  reason : String := ""
  untilTime : Time := zeroTime
  trips : ℕ := 0
  actor : String := ""
  deriving DecidableEq

abbrev Circuits := ExtTreeMap String Circuit compare

/-- `circuits[key]`, the zero value if there is none. -/
def Circuits.at (circuits : Circuits) (key : String) : Circuit := circuits[key]?.getD {}

abbrev Fingerprint := BitVec 256

/-- `bucket`. -/
structure Bucket (L : Type) where
  messages : L
  recipients : L
  start : Time
  last : Time
  count : ℤ := 0
  windows : ℤ := 0
  violations : ℤ := 0
  baseline : Float := 0
  fingerprints : ExtTreeMap Fingerprint ℤ compare := ∅

/-- `Guard`, without its configuration. -/
structure Guard (L : Type) where
  buckets : ExtTreeMap String (Bucket L) compare
  circuits : Circuits
  global : L
  accepted : UInt64 := 0
  deferred : UInt64 := 0

section Model

variable {L : Type} (C : Config) (R : Rate L)

/-- `float64(n) / window.Seconds()`. -/
def Config.perSecond (n : ℤ) : Float := Float.ofInt n / (Float.ofInt C.window / Float.ofInt second)

variable (circuits : Circuits)

/-- `New`, with the circuits read from the file. -/
def new : Guard L where
  buckets := ∅
  circuits := circuits
  global := R.newLimiter (C.perSecond C.globalMessages) C.globalMessages

/-- The answer of a call, and the guard after it. -/
abbrev Result (L : Type) := Option String × Guard L

/-! ### Admit -/

/-- `reject`. -/
def Guard.reject (g : Guard L) (reason : String) : Result L :=
  (some ("mailstorm protection: " ++ reason), { g with deferred := g.deferred + 1 })

variable (g : Guard L) (key : String)

/-- One of the circuits that hold for `key` is open. -/
def Guard.paused (now : Time) : Bool :=
  ["*", key].any fun k => now < (Circuits.at g.circuits k).untilTime

/-- Room for one more bucket is made of those long out of use. -/
def Guard.sweep (g : Guard L) (now : Time) : Guard L :=
  if C.maxIdentities ≤ g.buckets.size then
    { g with buckets := g.buckets.filter fun _ b => timeSub now b.last ≤ 2 * C.maxCooldown }
  else g

/-- The bucket of `key`, unless there is no room for it. -/
def Guard.bucketFor (now : Time) : Guard L × Option (Bucket L) :=
  match g.buckets[key]? with
  | some b => (g, some b)
  | none =>
    let g := g.sweep C now
    if C.maxIdentities ≤ g.buckets.size then (g, none)
    else
      (g, some
        { messages := R.newLimiter (C.perSecond C.messages) C.messages
          recipients := R.newLimiter (C.perSecond C.recipients) C.recipients
          start := now
          last := now })

/-- A window that is over goes into the baseline if nothing was wrong in it. -/
def Bucket.roll (b : Bucket L) (now : Time) : Bucket L :=
  let b := { b with last := now }
  if C.window ≤ timeSub now b.start then
    let b :=
      if b.violations = 0 then
        { b with
          baseline :=
            if b.windows = 0 then Float.ofInt b.count
            else 0.8 * b.baseline + 0.2 * Float.ofInt b.count
          windows := b.windows + 1 }
      else b
    { b with count := 0, violations := 0, start := now, fingerprints := ∅ }
  else b

variable (b : Bucket L) (recipients : ℤ) (fingerprint : Fingerprint) (now : Time)

/-- What is wrong with a message, the last of the checks that fail. -/
def Bucket.judge : String × Bucket L :=
  let reason :=
    if decide (recipients < 1) || decide (R.tokensAt b.messages now < 1) ||
        decide (R.tokensAt b.recipients now < Float.ofInt recipients) then "sender burst limit"
    else ""
  let reason :=
    if decide (C.baselineWindows ≤ b.windows) && decide (C.anomalyFloor ≤ b.count) &&
        decide (b.baseline * C.anomalyFactor < Float.ofInt (b.count + 1)) then
      "abnormal increase over sender baseline"
    else reason
  if C.duplicateLimit ≤ b.fingerprints.getD fingerprint 0 then
    ("repeated message storm", { b with violations := C.tripAfter })
  else (reason, b)

/-- The loop that doubles a cooldown. -/
def grow (cap : Duration) : ℕ → Duration → Duration
  | 0, cool => cool
  | n + 1, cool => if cool < cap then grow cap n (cool * 2) else cool

/-- The cooldown after so many trips. -/
def cooldownAfter (trips : ℕ) : Duration :=
  let cool := grow C.maxCooldown trips C.cooldown
  if C.maxCooldown < cool then C.maxCooldown else cool

/-- The circuits that are kept when a circuit trips. -/
def remembered (now : Time) : Circuits :=
  circuits.filter fun _ c => timeSub now c.untilTime ≤ 2 * C.maxCooldown

/-- The circuits after the one of `key` has tripped. -/
def tripped (key reason : String) (now : Time) : Circuits :=
  let old := Circuits.at circuits key
  (remembered C circuits now).insert key
    { key := key
      reason := reason
      actor := "automatic"
      untilTime := now + cooldownAfter C old.trips
      trips := old.trips + 1 }

variable (reason : String)

/-- The circuit of `key` trips, unless there is no room for it. -/
def Guard.trip (now : Time) : Guard L × Bool :=
  if C.maxIdentities ≤ (remembered C g.circuits now).size ∧ (Circuits.at g.circuits key).key = ""
  then ({ g with circuits := remembered C g.circuits now }, false)
  else ({ g with circuits := tripped C g.circuits key reason now }, true)

/-- A message is let in. -/
def Guard.letIn : Result L :=
  let (allowed, limiter) := R.allowN g.global now 1
  if !allowed then
    { g with buckets := g.buckets.insert key b, global := limiter }.reject "global admission limit"
  else
    let seen := b.fingerprints.getD fingerprint 0
    let b :=
      { b with
        messages := (R.allowN b.messages now 1).2
        recipients := (R.allowN b.recipients now recipients).2
        count := b.count + 1
        fingerprints :=
          if (b.fingerprints.size : ℤ) < 2 * C.messages ∨ 0 < seen then
            b.fingerprints.insert fingerprint (seen + 1)
          else b.fingerprints }
    (none,
      { g with
        buckets := g.buckets.insert key b, global := limiter, accepted := g.accepted + 1 })

/-- A message is refused, and the circuit trips if that was once too often. -/
def Guard.refuse (b : Bucket L) (now : Time) (saveErr : Option String) : Result L :=
  let b := { b with violations := b.violations + 1 }
  let g := { g with buckets := g.buckets.insert key b }
  if C.tripAfter ≤ b.violations then
    let (g, tripped) := g.trip C key reason now
    if !tripped then g.reject "circuit capacity reached"
    else if saveErr.isSome then g.reject "circuit persistence unavailable"
    else g.reject reason
  else g.reject reason

/-- `Admit`.  `ctxErr` is `ctx.Err()`, and `saveErr` what `save` would return. -/
def admitMail (recipients : ℤ) (fingerprint : Fingerprint) (now : Time)
    (ctxErr saveErr : Option String) : Result L :=
  if !C.enabled then (none, g)
  else if ctxErr.isSome then (ctxErr, g)
  else if g.paused key now then g.reject "sender temporarily paused"
  else
    match g.bucketFor C R key now with
    | (g, none) => g.reject "identity capacity reached"
    | (g, some b) =>
      let (reason, b) := (b.roll C now).judge C R recipients fingerprint now
      if reason ≠ "" then g.refuse C key reason b now saveErr
      else g.letIn C R key b recipients fingerprint now

/-! ### Pause and Resume -/

/-- What is wrong with the arguments of `Pause`. -/
def pauseError (key reason : String) (duration : Duration) : Option String :=
  if !C.enabled then some "mailstorm protection disabled"
  else if key = "" ∨ 512 < key.utf8ByteSize ∨ reason = "" ∨ 512 < reason.utf8ByteSize ∨
      duration < second ∨ 86400 * second < duration then
    some "key, reason and duration between 1s and 24h required"
  else none

/-- `Pause`.  The clock is read at `readings k` for the circuit of `k`, and then
at `now`. -/
def pause (actor : String) (duration : Duration) (readings : String → Time) (now : Time)
    (saveErr : Option String) : Result L :=
  match pauseError C key reason duration with
  | some err => (some err, g)
  | none =>
    let g := { g with circuits := g.circuits.filter fun k c => readings k < c.untilTime }
    if key ≠ "*" ∧ g.circuits[key]? = none ∧ C.maxIdentities ≤ g.circuits.size then
      (some "circuit capacity reached", g)
    else
      let old := Circuits.at g.circuits key
      let circuit : Circuit :=
        { key := key
          reason := reason
          actor := actor
          untilTime := if now + duration < old.untilTime then old.untilTime else now + duration
          trips := old.trips + 1 }
      (saveErr, { g with circuits := g.circuits.insert key circuit })

/-- `Resume`. -/
def resume (saveErr : Option String) : Result L :=
  match saveErr with
  | some err => (some err, g)
  | none =>
    (none, { g with circuits := g.circuits.erase key, buckets := g.buckets.erase key })

/-! ### Histories -/

/-- A call, with what it reads of the clock and of the file system. -/
inductive Call
  | admission (key : String) (recipients : ℤ) (fingerprint : Fingerprint) (now : Time)
      (ctxErr saveErr : Option String)
  | pause (key reason actor : String) (duration : Duration) (readings : String → Time)
      (now : Time) (saveErr : Option String)
  | resume (key : String) (saveErr : Option String)

def step (g : Guard L) : Call → Result L
  | .admission key recipients fingerprint now ctxErr saveErr =>
    admitMail C R g key recipients fingerprint now ctxErr saveErr
  | .pause key reason actor duration readings now saveErr =>
    pause C g key reason actor duration readings now saveErr
  | .resume key saveErr => resume g key saveErr

def run (g : Guard L) (calls : List Call) : Guard L :=
  calls.foldl (fun g c => (step C R g c).2) g

end Model

/-! ### What a call does to the circuits -/

section Circuits

variable {L : Type} {C : Config} {R : Rate L} {g : Guard L} {circuits : Circuits}
  {key : String} {now : Time}

@[simp] theorem reject_circuits (g : Guard L) (reason : String) :
    (g.reject reason).2.circuits = g.circuits := rfl

theorem bucketFor_circuits : (g.bucketFor C R key now).1.circuits = g.circuits := by
  have hsweep : (g.sweep C now).circuits = g.circuits := by
    unfold Guard.sweep
    split <;> rfl
  unfold Guard.bucketFor
  cases g.buckets[key]? with
  | some b => rfl
  | none =>
    dsimp only
    split <;> exact hsweep

/-- `Admit` leaves the circuits alone, forgets old ones, or trips its own. -/
inductive Admitted (C : Config) (circuits : Circuits) (key : String) (now : Time) :
    Circuits → Prop
  | alone : Admitted C circuits key now circuits
  | forgot : Admitted C circuits key now (remembered C circuits now)
  | tripped (reason : String) : Admitted C circuits key now (tripped C circuits key reason now)

variable {b : Bucket L} {recipients : ℤ} {fingerprint : Fingerprint} {saveErr : Option String}

theorem letIn_circuits :
    (g.letIn C R key b recipients fingerprint now).2.circuits = g.circuits := by
  unfold Guard.letIn
  dsimp only
  split <;> rfl

theorem refuse_circuits {reason : String} :
    Admitted C g.circuits key now (g.refuse C key reason b now saveErr).2.circuits := by
  unfold Guard.refuse Guard.trip
  dsimp only
  split
  · split
    · exact .forgot
    · rw [if_neg nofun]
      split <;> exact .tripped reason
  · exact .alone

theorem admitMail_circuits {ctxErr : Option String} :
    Admitted C g.circuits key now
      (admitMail C R g key recipients fingerprint now ctxErr saveErr).2.circuits := by
  unfold admitMail
  split
  · exact .alone
  split
  · exact .alone
  split
  · exact .alone
  have hbucket : (g.bucketFor C R key now).1.circuits = g.circuits := bucketFor_circuits
  split
  · next g' hg =>
    rw [hg] at hbucket
    rw [reject_circuits, hbucket]
    exact .alone
  · next g' b hg =>
    rw [hg] at hbucket
    dsimp only
    split
    · rw [← hbucket]
      exact refuse_circuits
    · rw [letIn_circuits, hbucket]
      exact .alone

end Circuits

/-! ### Cooldowns -/

section Cooldown

variable {C : Config}

theorem min_grow {cap cool : ℤ} (hcool : 0 < cool) (n : ℕ) :
    min (grow cap n cool) cap = min (cool * 2 ^ n) cap := by
  induction n generalizing cool with
  | zero => rw [grow, pow_zero, mul_one]
  | succ n ih =>
    unfold grow
    split
    · rw [ih (mul_pos hcool two_pos), pow_succ', mul_assoc]
    · next hcap =>
      have hpow : cool ≤ cool * 2 ^ (n + 1) :=
        le_mul_of_one_le_right hcool.le (one_le_pow₀ one_le_two)
      have hle := le_of_not_gt hcap
      rw [min_eq_right hle, min_eq_right (hle.trans hpow)]

/-- The cooldown is doubled with each trip, up to the cap. -/
theorem cooldownAfter_eq (C : Config) (n : ℕ) :
    cooldownAfter C n = min (C.cooldown * 2 ^ n) C.maxCooldown := by
  rw [← min_grow C.cooldown_pos, cooldownAfter]
  split
  · next h => exact (min_eq_right h.le).symm
  · next h => exact (min_eq_left (le_of_not_gt h)).symm

theorem cooldownAfter_mono {m n : ℕ} (h : m ≤ n) : cooldownAfter C m ≤ cooldownAfter C n := by
  rw [cooldownAfter_eq, cooldownAfter_eq]
  exact min_le_min_right _ (mul_le_mul_of_nonneg_left (pow_le_pow_right₀ (by norm_num) h)
    C.cooldown_pos.le)

theorem double_cooldownAfter (n : ℕ) :
    min (2 * cooldownAfter C n) C.maxCooldown = cooldownAfter C (n + 1) := by
  have hcap : 0 < C.maxCooldown := C.cooldown_pos.trans_le C.cooldown_le
  have hdouble : 2 * min (C.cooldown * 2 ^ n) C.maxCooldown =
      min (C.cooldown * 2 ^ (n + 1)) (2 * C.maxCooldown) := by
    rw [mul_min_of_nonneg _ _ two_pos.le, pow_succ', mul_left_comm]
  rw [cooldownAfter_eq, cooldownAfter_eq, hdouble, min_assoc,
    min_eq_right (le_mul_of_one_le_left hcap.le one_le_two)]

end Cooldown

/-! ### Trips are counted up -/

section Trips

variable {L : Type} {C : Config} {R : Rate L} {g : Guard L} {circuits circuits' : Circuits}
  {key : String} {now : Time}

/-- The trips on record for `key`. -/
def Guard.trips (g : Guard L) (key : String) : ℕ := (Circuits.at g.circuits key).trips

/-- The pause of `key` has been over for more than twice the longest cooldown. -/
def Stale (C : Config) (circuits : Circuits) (key : String) (now : Time) : Prop :=
  2 * C.maxCooldown < timeSub now (Circuits.at circuits key).untilTime

theorem at_insert_self (circuits : Circuits) (c : Circuit) :
    Circuits.at (circuits.insert key c) key = c := by
  simp [Circuits.at]

theorem getElem?_insert_of_ne {key' : String} (circuits : Circuits) (c : Circuit)
    (h : key' ≠ key) : (circuits.insert key c)[key']? = circuits[key']? := by
  rw [ExtTreeMap.getElem?_insert, if_neg (by simpa using h.symm)]

/-- A circuit that is not stale is remembered. -/
theorem getElem?_remembered (h : ¬ Stale C circuits key now) :
    (remembered C circuits now)[key]? = circuits[key]? := by
  rw [remembered, ExtTreeMap.getElem?_filter']
  cases hc : circuits[key]? with
  | none => rfl
  | some c =>
    have hat : Circuits.at circuits key = c := by rw [Circuits.at, hc]; rfl
    rw [Stale, hat] at h
    simp [le_of_not_gt h]

theorem Admitted.trips_le {asked : String} (h : Admitted C circuits asked now circuits')
    (hstale : ¬ Stale C circuits key now) :
    (Circuits.at circuits key).trips ≤ (Circuits.at circuits' key).trips := by
  cases h with
  | alone => exact le_rfl
  | forgot => rw [Circuits.at, Circuits.at, getElem?_remembered hstale]
  | tripped reason =>
    rw [Mailstorm.tripped]
    by_cases hkey : key = asked
    · subst hkey
      rw [at_insert_self]
      exact Nat.le_succ _
    · rw [Circuits.at, Circuits.at, getElem?_insert_of_ne _ _ hkey, getElem?_remembered hstale]

/-! ### Histories that count up -/

/-- Calls after which the trips of `key` may be forgotten. -/
def Call.Clears (C : Config) (g : Guard L) (key : String) : Call → Prop
  | .admission _ _ _ now _ _ => Stale C g.circuits key now
  | .pause _ _ _ _ _ now _ => Stale C g.circuits key now
  | .resume resumed saveErr => resumed = key ∧ saveErr = none

/-- The identity a call pauses. -/
def Call.paused : Call → Option String
  | .pause key .. => some key
  | _ => none

/-- What a call may do to the circuits. -/
structure Escalates (C : Config) (R : Rate L) (g : Guard L) (c : Call) : Prop where
  kept : ∀ key, ¬ c.Clears C g key → g.trips key ≤ (step C R g c).2.trips key
  apart : ∀ paused, c.paused = some paused → ∀ key, key ≠ paused →
    (step C R g c).2.circuits[key]? = g.circuits[key]?
  failed : c.paused ≠ none → (step C R g c).1 ≠ none →
    (step C R g c).2.circuits = g.circuits

/-- The condition: when an identity is paused no pause is over, and the circuits
can be saved. -/
def Call.Proper (C : Config) (g : Guard L) : Call → Prop
  | .pause key reason _ duration readings _ saveErr =>
    pauseError C key reason duration = none →
      (∀ k c, g.circuits[k]? = some c → readings k < c.untilTime) ∧ saveErr = none
  | _ => True

theorem filter_eq_self {keep : String → Circuit → Bool}
    (h : ∀ k c, circuits[k]? = some c → keep k c = true) : circuits.filter keep = circuits := by
  refine ExtTreeMap.ext_getElem? fun k => ?_
  rw [ExtTreeMap.getElem?_filter']
  cases hk : circuits[k]? with
  | none => rfl
  | some c => exact Option.filter_some_pos (h k c hk)

/-- A proper pause fails without a trace, or trips its own circuit. -/
theorem pause_circuits {reason actor : String} {duration : Duration}
    {readings : String → Time} {saveErr : Option String}
    (h : Call.Proper C g (.pause key reason actor duration readings now saveErr)) :
    (pause C g key reason actor duration readings now saveErr).2.circuits = g.circuits ∨
      ((pause C g key reason actor duration readings now saveErr).1 = none ∧
        ∃ c : Circuit, c.trips = g.trips key + 1 ∧
          (pause C g key reason actor duration readings now saveErr).2.circuits =
            g.circuits.insert key c) := by
  unfold pause
  cases herror : pauseError C key reason duration with
  | some err => exact .inl rfl
  | none =>
    obtain ⟨hopen, rfl⟩ := h herror
    have hall : g.circuits.filter (fun k c => decide (readings k < c.untilTime)) = g.circuits :=
      filter_eq_self fun k c hc => decide_eq_true (hopen k c hc)
    dsimp only
    rw [hall]
    split
    · exact .inl rfl
    · exact .inr ⟨rfl, _, rfl, rfl⟩

variable {c : Call} {calls : List Call}

theorem escalates (h : c.Proper C g) : Escalates C R g c := by
  cases c with
  | admission asked recipients fingerprint now ctxErr saveErr =>
    exact ⟨fun key hclear => admitMail_circuits.trips_le hclear, nofun,
      fun hpaused => absurd rfl hpaused⟩
  | resume resumed saveErr =>
    refine ⟨fun key hclear => ?_, nofun, fun hpaused => absurd rfl hpaused⟩
    cases saveErr with
    | some err => exact le_rfl
    | none =>
      have hne : compare resumed key ≠ .eq := fun heq =>
        hclear ⟨LawfulEqCmp.eq_of_compare heq, rfl⟩
      have hkept : (g.circuits.erase resumed)[key]? = g.circuits[key]? := by
        rw [ExtTreeMap.getElem?_erase, if_neg hne]
      show (Circuits.at g.circuits key).trips ≤
        (Circuits.at (g.circuits.erase resumed) key).trips
      rw [Circuits.at, Circuits.at, hkept]
  | pause asked reason actor duration readings now saveErr =>
    rcases pause_circuits h with heq | ⟨hok, c, htrips, heq⟩
    · exact ⟨fun key _ => (congrArg (fun m => (Circuits.at m key).trips) heq).ge,
        fun _ _ key _ => by rw [step, heq], fun _ _ => heq⟩
    · refine ⟨fun key _ => ?_, ?_, fun _ herr => absurd hok herr⟩
      · by_cases hkey : key = asked
        · subst hkey
          rw [Guard.trips, Guard.trips, step, heq, at_insert_self, htrips]
          exact Nat.le_succ _
        · rw [Guard.trips, Guard.trips, step, heq, Circuits.at, Circuits.at,
            getElem?_insert_of_ne _ _ hkey]
      · rintro paused ⟨⟩ key hkey
        rw [step, heq, getElem?_insert_of_ne _ _ hkey]

/-- `P` holds of every call of a history and of the guard it finds. -/
def Along (C : Config) (R : Rate L) (P : Guard L → Call → Prop) : Guard L → List Call → Prop
  | _, [] => True
  | g, c :: calls => P g c ∧ Along C R P (step C R g c).2 calls

theorem Along.append {P : Guard L → Call → Prop} {before after : List Call}
    (h : Along C R P g (before ++ after)) :
    Along C R P g before ∧ Along C R P (run C R g before) after := by
  induction before generalizing g with
  | nil => exact ⟨trivial, h⟩
  | cons c before ih =>
    obtain ⟨hc, h⟩ := h
    exact ⟨⟨hc, (ih h).1⟩, (ih h).2⟩

/-- The call trips the circuit of `key` for the time `cool`. -/
def Trips (C : Config) (R : Rate L) (g : Guard L) (c : Call) (key : String) (cool : Duration) :
    Prop :=
  ∃ recipients fingerprint now ctxErr saveErr reason,
    c = .admission key recipients fingerprint now ctxErr saveErr ∧
    (step C R g c).2.circuits[key]? =
      some ⟨key, reason, now + cool, g.trips key + 1, "automatic"⟩

theorem Trips.spec {cool : Duration} (h : Trips C R g c key cool) :
    cool = cooldownAfter C (g.trips key) ∧ (step C R g c).2.trips key = g.trips key + 1 := by
  obtain ⟨recipients, fingerprint, now, ctxErr, saveErr, reason, rfl, hcircuit⟩ := h
  have hat := congrArg (fun c : Option Circuit => c.getD {}) hcircuit
  refine ⟨?_, congrArg Circuit.trips hat⟩
  have hadmitted : Admitted C g.circuits key now
      (step C R g (.admission key recipients fingerprint now ctxErr saveErr)).2.circuits :=
    admitMail_circuits
  generalize (step C R g (.admission key recipients fingerprint now ctxErr saveErr)).2.circuits =
    circuits at hadmitted hat hcircuit
  -- only a trip adds to the trips
  cases hadmitted with
  | alone => exact absurd (congrArg Circuit.trips hat) (Nat.ne_of_lt (Nat.lt_succ_self _))
  | forgot =>
    rw [remembered, ExtTreeMap.getElem?_filter', Option.filter_eq_some_iff] at hcircuit
    have hold := congrArg (fun c : Option Circuit => (c.getD {}).trips) hcircuit.1
    exact absurd hold (Nat.ne_of_lt (Nat.lt_succ_self _))
  | tripped reason' =>
    rw [tripped, ExtTreeMap.getElem?_insert_self, Option.some.injEq] at hcircuit
    exact (add_left_cancel (congrArg Circuit.untilTime hcircuit)).symm

/-- Without a reason to forget them trips add up. -/
theorem trips_le_run (hproper : Along C R (fun g c => c.Proper C g) g calls)
    (hkept : Along C R (fun g c => ¬ c.Clears C g key) g calls) :
    g.trips key ≤ (run C R g calls).trips key := by
  induction calls generalizing g with
  | nil => exact le_rfl
  | cons c calls ih =>
    exact ((escalates hproper.1).kept key hkept.1).trans (ih hproper.2 hkept.2)

/-- A storm that comes again gets at least twice the cooldown, up to the cap. -/
def Doubles (C : Config) (R : Rate L) (g₀ : Guard L) (calls : List Call) : Prop :=
  ∀ before c₁ between c₂ after key cool₁ cool₂,
    calls = before ++ c₁ :: (between ++ c₂ :: after) →
    Trips C R (run C R g₀ before) c₁ key cool₁ →
    Along C R (fun g c => ¬ c.Clears C g key) (run C R g₀ (before ++ [c₁])) between →
    Trips C R (run C R g₀ (before ++ c₁ :: between)) c₂ key cool₂ →
    min (2 * cool₁) C.maxCooldown ≤ cool₂

theorem doubles (h : Along C R (fun g c => c.Proper C g) g calls) : Doubles C R g calls := by
  rintro before c₁ between c₂ after key cool₁ cool₂ rfl hfirst hkept hsecond
  have hrun : run C R g (before ++ [c₁]) = (step C R (run C R g before) c₁).2 := by
    simp [run]
  have hall : run C R g (before ++ c₁ :: between) =
      run C R (run C R g (before ++ [c₁])) between := by
    simp [run]
  have hproper := (h.append.2.2).append.1
  rw [hrun] at hkept hall
  obtain ⟨rfl, htrips⟩ := hfirst.spec
  obtain ⟨rfl, -⟩ := hsecond.spec
  rw [double_cooldownAfter, ← htrips, hall]
  exact cooldownAfter_mono (trips_le_run hproper hkept)

end Trips

/-- **Storms escalate** in every history in which circuits are paused properly:
trips are counted up, those of one identity apart from those of others, and a
storm that comes again gets twice the cooldown. -/
theorem storms_escalate {L : Type} (C : Config) (R : Rate L) (g₀ : Guard L) (calls : List Call)
    (hproper : Along C R (fun g c => c.Proper C g) g₀ calls) :
    (∀ before c after, calls = before ++ c :: after →
      Escalates C R (run C R g₀ before) c) ∧ Doubles C R g₀ calls := by
  refine ⟨?_, doubles hproper⟩
  rintro before c after rfl
  exact escalates hproper.append.2.1

/-- Limiters that are never asked, in a guard that trips at once. -/
def idle : Rate Unit := ⟨fun _ _ => (), fun _ _ => 0, fun _ _ _ => (true, ())⟩
def touchy : Config := { tripAfter := 1 }

/-- A message for nobody. -/
def storm (key : String) (now : Time) : Call := .admission key 0 0 now none none

/-- A storm that comes again after six minutes is paused for ten. -/
theorem storms_escalate_again :
    Trips touchy idle (new touchy idle ∅) (storm "a" 0) "a" (300 * second) ∧
    Trips touchy idle (run touchy idle (new touchy idle ∅) [storm "a" 0])
      (storm "a" (360 * second)) "a" (600 * second) ∧
    min (2 * (300 * second)) touchy.maxCooldown ≤ 600 * second := by
  have hfirst : Trips touchy idle (new touchy idle ∅) (storm "a" 0) "a" (300 * second) :=
    ⟨0, 0, 0, none, none, "sender burst limit", rfl, by decide +kernel⟩
  have hsecond : Trips touchy idle (run touchy idle (new touchy idle ∅) [storm "a" 0])
      (storm "a" (360 * second)) "a" (600 * second) :=
    ⟨0, 0, 360 * second, none, none, "sender burst limit", rfl, by decide +kernel⟩
  exact ⟨hfirst, hsecond, (storms_escalate touchy idle (new touchy idle ∅)
    [storm "a" 0, storm "a" (360 * second)] ⟨trivial, trivial, trivial⟩).2
    [] _ [] _ [] "a" _ _ rfl hfirst trivial hsecond⟩

/-- An operator pauses `key` for an hour. -/
def operator (key : String) (now : Time) (saveErr : Option String) : Call :=
  .pause key "by hand" "admin" (3600 * second) (fun _ => now) now saveErr

/-- **A pause of one identity makes the guard forget another.**  The circuit of
`"a"` has tripped, and its pause has been over for five minutes when `"b"` is
paused: the trips of `"a"` are gone, also if the pause reports an error, and the
next storm gets the first cooldown again. -/
theorem pause_forgets :
    let g := run touchy idle (new touchy idle ∅) [storm "a" 0]
    let paused := step touchy idle g (operator "b" (600 * second) none)
    let failed := step touchy idle g (operator "b" (600 * second) (some "disk full"))
    g.trips "a" = 1 ∧ ¬ Stale touchy g.circuits "a" (600 * second) ∧
    paused.1 = none ∧ paused.2.trips "a" = 0 ∧
    Trips touchy idle paused.2 (storm "a" (660 * second)) "a" (300 * second) ∧
    failed.1 ≠ none ∧ failed.2.circuits ≠ g.circuits := by
  refine ⟨by decide +kernel, ?_, by decide +kernel, by decide +kernel, ?_, by decide +kernel,
    by decide +kernel⟩
  · unfold Stale
    decide +kernel
  · exact ⟨0, 0, 660 * second, none, none, "sender burst limit", rfl, by decide +kernel⟩

end EmailService.Mailstorm
