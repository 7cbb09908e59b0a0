/-
EmailService/RetryOrder.lean

The order in which pending mail is retried: `fairPending`
(internal/smtpd/retry.go).

The loop of the source goes on until everything is served.  `serveWithin` is that
loop with a bound on its passes, and `serveWithin_eq` says that the bound is not
reached.  What it serves are the rounds of the groups by domain
(`serveRounds_eq`), so that the rules for round robin apply: `fair_dispatch`.
-/
import EmailService.Message
import EmailService.RoundRobin

namespace EmailService.RetryOrder

open GoStrings RoundRobin List Function

/-! ### The loop -/

/-- The loop `for len(result) < len(entries)`, for at most so many passes. -/
def serveWithin (order : List String) (total : ℕ) :
    ℕ → List JournalEntry → (String → List JournalEntry) → Option (List JournalEntry)
  | 0, result, _ => if result.length < total then none else some result
  | passes + 1, result, groups =>
    if result.length < total then
      serveWithin order total passes (result ++ (serveRound order groups).1)
        (serveRound order groups).2
    else some result

/-- `fairPending` on entries already sorted by creation, for at most so many passes. -/
def fairPendingWithin (U : CaseTables) (passes : ℕ) (entries : List JournalEntry) :
    Option (List JournalEntry) :=
  let groups := entries.foldl (fun g e => g.add (retryDomain U e) e) ({} : Groups JournalEntry)
  serveWithin groups.keys entries.length passes [] groups.members

variable {order : List String} {groups : String → List JournalEntry}

/-- The loop returns what so many passes serve, if that is everything. -/
theorem serveWithin_eq {total n passes : ℕ} {result : List JournalEntry} (hpasses : n ≤ passes)
    (htotal : result.length + (serveRounds order n groups).length = total) :
    serveWithin order total passes result groups = some (result ++ serveRounds order n groups) := by
  induction passes generalizing n result groups with
  | zero =>
    obtain rfl : n = 0 := Nat.le_zero.mp hpasses
    rw [serveRounds, length_nil] at htotal
    rw [serveWithin, if_neg (by omega), serveRounds, append_nil]
  | succ passes ih =>
    rw [serveWithin]
    split
    · next hmore =>
      cases n with
      | zero =>
        rw [serveRounds, length_nil] at htotal
        omega
      | succ n =>
        rw [serveRounds, length_append] at htotal
        rw [ih (n := n) (by omega) (by rw [length_append]; omega), serveRounds,
          append_assoc]
    · -- nothing is left to serve
      have hnil : serveRounds order n groups = [] := length_eq_zero_iff.mp (by omega)
      rw [hnil, append_nil]

/-! ### Rounds -/

theorem serveRound_eq (hnodup : order.Nodup) (groups : String → List JournalEntry) :
    (serveRound order groups).1 = roundAt order groups 0 ∧
      ∀ d ∈ order, (serveRound order groups).2 d = (groups d).tail := by
  -- the groups of domains that are not served stay as they are
  have hother : ∀ (order : List String) (groups : String → List JournalEntry), ∀ d ∉ order,
      (serveRound order groups).2 d = groups d := by
    intro order
    induction order with
    | nil => exact fun _ _ _ => rfl
    | cons c order ih =>
      intro groups d hd
      rw [mem_cons, not_or] at hd
      rw [serveRound]
      split
      · exact ih groups d hd.2
      · exact (ih _ d hd.2).trans (update_of_ne hd.1 ..)
  induction order generalizing groups with
  | nil => exact ⟨rfl, nofun⟩
  | cons c order ih =>
    rw [nodup_cons] at hnodup
    rw [serveRound, roundAt, filterMap_cons, ← roundAt, forall_mem_cons]
    split
    · next hnil =>
      obtain ⟨hserved, hleft⟩ := ih hnodup.2 groups
      rw [hnil]
      refine ⟨hserved, ?_, hleft⟩
      rw [hother order groups c hnodup.1, hnil, tail_nil]
    · next e rest hcons =>
      obtain ⟨hserved, hleft⟩ := ih hnodup.2 (update groups c rest)
      have hsame : ∀ d ∈ order, update groups c rest d = groups d := by
        intro d hd
        have hne : d ≠ c := fun heq => hnodup.1 (heq ▸ hd)
        exact update_of_ne hne ..
      rw [hcons]
      dsimp only
      refine ⟨?_, ?_, fun d hd => ?_⟩
      · rw [hserved]
        refine congrArg (e :: ·) (filterMap_congr fun d hd => ?_)
        rw [hsame d hd]
      · rw [hother order _ c hnodup.1, update_self, tail_cons]
      · rw [hleft d hd, hsame d hd]

theorem roundAt_congr {groups' : String → List JournalEntry}
    (h : ∀ d ∈ order, groups d = groups' d) : roundAt order groups = roundAt order groups' := by
  funext k
  exact filterMap_congr fun d hd => by rw [h d hd]

/-- **The passes of the loop are the rounds of the groups.** -/
theorem serveRounds_eq (hnodup : order.Nodup) (n : ℕ) (groups : String → List JournalEntry) :
    serveRounds order n groups = rounds order groups n := by
  induction n generalizing groups with
  | zero => rfl
  | succ n ih =>
    obtain ⟨hserved, hleft⟩ := serveRound_eq hnodup groups
    rw [serveRounds, hserved, ih, rounds_succ', rounds, rounds, roundAt_congr hleft]

/-! ### Groups -/

section Grouping

variable (U : CaseTables) (entries : List JournalEntry)

/-- The groups of `fairPending`. -/
def destinations : Groups JournalEntry :=
  entries.foldl (fun g e => g.add (retryDomain U e) e) {}

theorem destinations_append (e : JournalEntry) :
    destinations U (entries ++ [e]) = (destinations U entries).add (retryDomain U e) e := by
  rw [destinations, foldl_append]
  rfl

theorem destinations_partition : (destinations U entries).Partition entries := by
  induction entries using reverseRecOn with
  | nil => exact ⟨nodup_nil, fun _ _ => rfl, .nil⟩
  | append_singleton entries e ih =>
    rw [destinations_append]
    exact ih.add ..

/-- A group has the entries of its domain, in their order. -/
theorem members_destinations (d : String) :
    (destinations U entries).members d = entries.filter fun e => retryDomain U e = d := by
  induction entries using reverseRecOn with
  | nil => rfl
  | append_singleton entries e ih =>
    rw [destinations_append, Groups.add, filter_append]
    dsimp only
    by_cases hd : d = retryDomain U e
    · subst hd
      rw [update_self, ih]
      simp
    · rw [update_of_ne hd, ih]
      simp [Ne.symm hd]

theorem destinations_keyed :
    Keyed (retryDomain U) (destinations U entries).keys (destinations U entries).members where
  nodup := (destinations_partition U entries).nodup
  key_eq d e he := by
    rw [members_destinations] at he
    exact of_decide_eq_true (mem_filter.mp he).2
  covers d hne := by
    by_contra hd
    exact hne ((destinations_partition U entries).empty d hd)

theorem fairPending_eq : fairPending U entries =
    rounds (destinations U entries).keys (destinations U entries).members entries.length :=
  serveRounds_eq (destinations_partition U entries).nodup ..

/-- What is served for a domain are its entries, in their order. -/
theorem filter_fairPending (d : String) :
    (fairPending U entries).filter (fun e => retryDomain U e = d) =
      entries.filter fun e => retryDomain U e = d := by
  rw [fairPending_eq, (destinations_keyed U entries).filter_rounds, members_destinations]
  exact take_of_length_le (length_filter_le ..)

theorem fairPending_perm : (fairPending U entries).Perm entries :=
  perm_of_filter_eq (filter_fairPending U entries)

end Grouping

/-- **Fair dispatch.**  However `sort.Slice` orders entries of one instant, the loop ends
with a permutation of the entries that serves each domain in the order of creation, and two
domains that both wait have been served equally often, up to one. -/
theorem fair_dispatch (U : CaseTables) (entries sorted : List JournalEntry)
    (hperm : sorted.Perm entries)
    (hsorted : sorted.Pairwise fun e e' => e.createdAt ≤ e'.createdAt) :
    (∀ passes, entries.length ≤ passes →
      fairPendingWithin U passes sorted = some (fairPending U sorted)) ∧
    (fairPending U sorted).Perm entries ∧
    (∀ d, ((fairPending U sorted).filter fun e => retryDomain U e = d).Pairwise
      fun e e' => e.createdAt ≤ e'.createdAt) ∧
    ∀ served waiting, fairPending U sorted = served ++ waiting →
      ∀ e ∈ waiting, ∀ e' ∈ waiting,
        served.countP (fun x => retryDomain U x = retryDomain U e) ≤
          served.countP (fun x => retryDomain U x = retryDomain U e') + 1 := by
  have hall := fairPending_perm U sorted
  refine ⟨fun passes hpasses => ?_, hall.trans hperm, fun d => ?_, ?_⟩
  · refine serveWithin_eq (n := sorted.length) (hperm.length_eq ▸ hpasses) ?_
    rw [length_nil, Nat.zero_add]
    exact hall.length_eq
  · rw [filter_fairPending]
    exact hsorted.sublist filter_sublist
  · intro served waiting hsplit e he e' he'
    rw [fairPending_eq] at hsplit
    obtain ⟨k, hk⟩ := (destinations_keyed U sorted).rounds_fair hsplit
    exact (hk e he).2.trans (Nat.succ_le_succ (hk e' he').1)

/-- Three entries, two of them for one domain. -/
def threePending : List JournalEntry :=
  [{ messageID := "1", toAddrs := ["a@x"], createdAt := 1 },
   { messageID := "2", toAddrs := ["b@X"], createdAt := 2 },
   { messageID := "3", toAddrs := ["c@y"], createdAt := 3 }]

theorem fair_dispatch_threePending :
    (threePending.Pairwise fun e e' => e.createdAt ≤ e'.createdAt) ∧
      fairPendingWithin asciiTables 3 threePending = some (fairPending asciiTables threePending) ∧
      (fairPending asciiTables threePending).map JournalEntry.messageID = ["1", "3", "2"] := by
  have hsorted : threePending.Pairwise fun e e' => e.createdAt ≤ e'.createdAt := by
    decide
  exact ⟨hsorted, (fair_dispatch asciiTables threePending threePending (.refl _) hsorted).1 3
    (by decide), by decide⟩

end EmailService.RetryOrder
