/-
# Sequence sets and search criteria of the IMAP server

A sequence set names messages by their position in the listing or by their UID, with `*` for the
largest number in use and ranges in either direction.  `resolveSet` replaces `*` by a number of the
listing and leaves the rest to the sets of the IMAP library, which stand here as a structure with
their documented law (`SeqSets`); `resolveCriteria` does so throughout a tree of search criteria.

What a set denotes is said by `Denotes`, over the largest of the numbers in use, and what a
criterion means by `Holds`, a proposition built from the parts of the criterion.
-/
import EmailService.GoStrings

namespace EmailService.SearchSets

open GoStrings List Nat

/-- `imap.Seq`: a range, 0 standing for `*`. -/
structure Seq where
  start : ℕ
  stop : ℕ

/-- The sets of the IMAP library: a set made by adding ranges without `*` contains the numbers
between the ends of one of them. -/
structure SeqSets where
  addRange : List Seq → ℕ → ℕ → List Seq
  contains : List Seq → ℕ → Bool
  contains_addRanges : ∀ ranges : List (ℕ × ℕ), (∀ r ∈ ranges, r.1 ≠ 0 ∧ r.2 ≠ 0) → ∀ q ≠ 0,
    (contains (ranges.foldl (fun set r => addRange set r.1 r.2) []) q = true ↔
      ∃ r ∈ ranges, min r.1 r.2 ≤ q ∧ q ≤ max r.1 r.2)

/-- What `day` and `IsZero` read of a `time.Time`. -/
structure Time where
  isZero : Bool := true
  year : ℤ := 1
  month : ℕ := 1
  day : ℕ := 1

/-- `day(t).Before(day(u))`. -/
def Time.dayBefore (t u : Time) : Bool :=
  t.year < u.year ||
    (t.year = u.year && (t.month < u.month || (t.month = u.month && t.day < u.day)))

structure MessageSummary where
  id : String
  uid : ℕ
  flags : List String := []
  size : ℤ := 0
  date : Time := {}

/-- The fields of `imap.SearchCriteria` besides the sets and the nested criteria. -/
structure Tests where
  since : Time := {}
  before : Time := {}
  sentSince : Time := {}
  sentBefore : Time := {}
  larger : ℤ := 0
  smaller : ℤ := 0
  withFlags : List String := []
  withoutFlags : List String := []
  header : List (String × List String) := []
  body : List String := []
  text : List String := []

/-- `imap.SearchCriteria`. -/
inductive Criteria where
  | mk (seqNum uid : Option (List Seq)) (tests : Tests) (nots : List Criteria)
      (ors : List (Criteria × Criteria))

/-- What `matchMessage` reads out of a message, in lower case. -/
structure Reading where
  headers : String → List String := fun _ => []
  body : String := ""
  text : String := ""
  sent : Time := {}

variable (U : CaseTables) (L : SeqSets)

def hasFlag (flags : List String) (want : String) : Bool := flags.any (equalFold U · want)

/-- `strings.Contains`. -/
def contains (s part : String) : Bool := part.toList <:+: s.toList

/-! ### The sets -/

def resolveEnd (top n : ℕ) : ℕ := if n = 0 then top else n

def resolveSet (set : Option (List Seq)) (top : ℕ) : Option (List Seq) :=
  match set with
  | none => none
  | some seqs =>
    if top = 0 then some []
    else some (seqs.foldl (fun out seq =>
      L.addRange out (resolveEnd top seq.start) (resolveEnd top seq.stop)) [])

/-- The check that `set == nil || set.Contains(n)`. -/
def inSet (set : Option (List Seq)) (n : ℕ) : Bool :=
  match set with
  | none => true
  | some seqs => L.contains seqs n

/-- The number a message goes by, as a `uint32`. -/
def requestedID (uid : Bool) (m : MessageSummary × ℕ) : ℕ :=
  if uid then m.1.uid else (m.2 + 1) % 2 ^ 32

variable (messages : List MessageSummary) (uid : Bool)

def maxNumber : ℕ :=
  match uid, messages.getLast? with
  | true, some last => last.uid
  | _, _ => messages.length % 2 ^ 32

def selectedIDs (set : Option (List Seq)) : List String :=
  let set := resolveSet L set (maxNumber messages uid)
  (messages.zipIdx.filter fun m => inSet L set (requestedID uid m)).map (·.1.id)

/-! ### The criteria -/

mutual

def resolveCriteria (maxSeq maxUID : ℕ) : Criteria → Criteria
  | ⟨seqNum, uid, tests, nots, ors⟩ =>
    ⟨resolveSet L seqNum maxSeq, resolveSet L uid maxUID, tests,
      resolveNots maxSeq maxUID nots, resolveOrs maxSeq maxUID ors⟩

def resolveNots (maxSeq maxUID : ℕ) : List Criteria → List Criteria
  | [] => []
  | sub :: rest => resolveCriteria maxSeq maxUID sub :: resolveNots maxSeq maxUID rest

def resolveOrs (maxSeq maxUID : ℕ) : List (Criteria × Criteria) → List (Criteria × Criteria)
  | [] => []
  | (a, b) :: rest =>
    (resolveCriteria maxSeq maxUID a, resolveCriteria maxSeq maxUID b) ::
      resolveOrs maxSeq maxUID rest

end

/-- The checks of `matchCriteria` between those on the sets and those on nested criteria. -/
def Tests.pass (m : MessageSummary) (r : Reading) (c : Tests) : Bool :=
  (c.since.isZero || !m.date.dayBefore c.since) &&
  (c.before.isZero || m.date.dayBefore c.before) &&
  (c.sentSince.isZero || !(r.sent.isZero || r.sent.dayBefore c.sentSince)) &&
  (c.sentBefore.isZero || !(r.sent.isZero || !r.sent.dayBefore c.sentBefore)) &&
  !(c.larger > 0 && m.size ≤ c.larger) &&
  !(c.smaller > 0 && m.size ≥ c.smaller) &&
  c.withFlags.all (hasFlag U m.flags ·) &&
  c.withoutFlags.all (!hasFlag U m.flags ·) &&
  (c.header.all fun (key, values) => values.all fun want =>
    (r.headers (toLower U key)).any (contains · (toLower U want))) &&
  c.body.all (fun want => contains r.body (toLower U want)) &&
  c.text.all fun want => contains r.text (toLower U want)

mutual

def matchCriteria (seq : ℕ) (m : MessageSummary) (r : Reading) : Criteria → Bool
  | ⟨seqNum, uid, tests, nots, ors⟩ =>
    if !inSet L seqNum seq then false
    else if !inSet L uid m.uid then false
    else if !tests.pass U m r then false
    else if matchAny seq m r nots then false
    else matchPairs seq m r ors

def matchAny (seq : ℕ) (m : MessageSummary) (r : Reading) : List Criteria → Bool
  | [] => false
  | sub :: rest => if matchCriteria seq m r sub then true else matchAny seq m r rest

def matchPairs (seq : ℕ) (m : MessageSummary) (r : Reading) : List (Criteria × Criteria) → Bool
  | [] => true
  | (a, b) :: rest =>
    if !matchCriteria seq m r a && !matchCriteria seq m r b then false
    else matchPairs seq m r rest

end

/-- The loop of `SearchMessages`.  `read` fetches and parses a message. -/
def searchFrom (read : MessageSummary → Except String Reading) (uid : Bool) (c : Criteria) :
    List (MessageSummary × ℕ) → Except String (List ℕ)
  | [] => .ok []
  | m :: rest => do
      let r ← read m.1
      let ids ← searchFrom read uid c rest
      if matchCriteria U L (requestedID false m) m.1 r c then .ok (requestedID uid m :: ids)
      else .ok ids

/-- `SearchMessages`, and `resolveCriteria` on a missing criterion. -/
def searchMessages (read : MessageSummary → Except String Reading) (messages : List MessageSummary)
    (uid : Bool) (criteria : Option Criteria) : Except String (List ℕ) :=
  let c := match criteria with
    | none => ⟨none, none, {}, [], []⟩
    | some c => resolveCriteria L (maxNumber messages false) (maxNumber messages true) c
  searchFrom U L read uid c messages.zipIdx

/-! ### What sets and criteria denote -/

/-- A mailbox as the store lists it: by ascending UIDs. -/
structure Listing where
  messages : List MessageSummary
  ascending : messages.Pairwise (·.uid < ·.uid)
  uids : ∀ m ∈ messages, 0 < m.uid ∧ m.uid < 2 ^ 32

/-- The sequence number or the UID of a message of the listing. -/
def number (uid : Bool) (m : MessageSummary × ℕ) : ℕ := if uid then m.1.uid else m.2 + 1

/-- The largest number in use, the meaning of `*`. -/
def Listing.largest (l : Listing) (uid : Bool) : ℕ :=
  (l.messages.zipIdx.map (number uid)).foldr max 0

/-- The number lies in one of the ranges, read in either direction. -/
def Denotes (top : ℕ) (set : List Seq) (n : ℕ) : Prop :=
  ∃ seq ∈ set, min (resolveEnd top seq.start) (resolveEnd top seq.stop) ≤ n ∧
    n ≤ max (resolveEnd top seq.start) (resolveEnd top seq.stop)

instance (top : ℕ) (set : List Seq) (n : ℕ) : Decidable (Denotes top set n) :=
  inferInstanceAs (Decidable (∃ _ ∈ _, _))

/-- The meaning of a criterion for a message of the listing: its own tests hold, no negated
criterion does, and of each pair one does. -/
def Holds (l : Listing) (m : MessageSummary × ℕ) (r : Reading) : Criteria → Prop
  | ⟨seqNum, uid, tests, nots, ors⟩ =>
    (∀ set ∈ seqNum, Denotes (l.largest false) set (number false m)) ∧
    (∀ set ∈ uid, Denotes (l.largest true) set (number true m)) ∧
    tests.pass U m.1 r = true ∧
    (∀ sub, (_ : sub ∈ nots) → ¬ Holds l m r sub) ∧
    (∀ pair, (_ : pair ∈ ors) → Holds l m r pair.1 ∨ Holds l m r pair.2)
termination_by c => sizeOf c
decreasing_by
  · have := sizeOf_lt_of_mem ‹sub ∈ nots›
    simp only [Criteria.mk.sizeOf_spec]
    omega
  all_goals
    obtain ⟨a, b⟩ := pair
    have := sizeOf_lt_of_mem ‹(a, b) ∈ ors›
    simp only [Criteria.mk.sizeOf_spec, Prod.mk.sizeOf_spec] at this ⊢
    omega

/-! ### The numbers of a listing -/

variable {U L} {l : Listing} {m : MessageSummary × ℕ}

theorem Listing.length_lt (l : Listing) : l.messages.length < 2 ^ 32 := by
  have hnodup : (l.messages.map (·.uid)).Nodup :=
    pairwise_map.mpr (l.ascending.imp fun h => h.ne)
  have hrange : l.messages.map (·.uid) ⊆ range' 1 (2 ^ 32 - 1) := by
    intro n hn
    obtain ⟨m, hm, rfl⟩ := mem_map.mp hn
    have := l.uids m hm
    rw [mem_range'_1]
    omega
  have hlen := (Nodup.subperm hnodup hrange).length_le
  rw [length_map, length_range'] at hlen
  omega

theorem requestedID_eq (hm : m ∈ l.messages.zipIdx) (uid : Bool) :
    requestedID uid m = number uid m := by
  have hidx := snd_lt_of_mem_zipIdx hm
  have hlen := l.length_lt
  cases uid with
  | true => rfl
  | false => exact mod_eq_of_lt (by omega)

theorem number_pos (hm : m ∈ l.messages.zipIdx) (uid : Bool) : number uid m ≠ 0 := by
  cases uid with
  | true => exact (l.uids m.1 (fst_mem_of_mem_zipIdx hm)).1.ne'
  | false => exact succ_ne_zero _

theorem foldr_max_eq {ns : List ℕ} {top : ℕ} (hbound : ∀ n ∈ ns, n ≤ top)
    (hmem : top ∈ ns ∨ top = 0) : ns.foldr max 0 = top := by
  apply le_antisymm
  · exact max_le_of_forall_le ns top hbound
  · rcases hmem with hmem | rfl
    · exact le_max_of_le hmem le_rfl
    · exact zero_le _

/-- The last UID, or the length of the listing, is the largest number in use. -/
theorem maxNumber_eq (l : Listing) (uid : Bool) : maxNumber l.messages uid = l.largest uid := by
  symm
  have hlen := mod_eq_of_lt l.length_lt
  rcases l.messages.eq_nil_or_concat' with hnil | ⟨front, last, hcat⟩
  · simp [maxNumber, Listing.largest, hnil]
  · have hlast : (last, front.length) ∈ l.messages.zipIdx := by
      rw [hcat, zipIdx_append]
      simp
    cases uid with
    | true =>
      have hmax : maxNumber l.messages true = last.uid := by simp [maxNumber, hcat]
      rw [hmax]
      refine foldr_max_eq ?_ (.inl (mem_map.mpr ⟨_, hlast, rfl⟩))
      intro n hn
      obtain ⟨m, hm, rfl⟩ := mem_map.mp hn
      have hmem := fst_mem_of_mem_zipIdx hm
      have hasc := l.ascending
      rw [hcat] at hmem hasc
      rcases mem_append.mp hmem with hmem | hmem
      · exact ((pairwise_append.mp hasc).2.2 _ hmem _ mem_cons_self).le
      · exact (congrArg MessageSummary.uid (mem_singleton.mp hmem)).le
    | false =>
      simp only [maxNumber, hlen]
      refine foldr_max_eq ?_ (.inl (mem_map.mpr ⟨_, hlast, ?_⟩))
      · intro n hn
        obtain ⟨m, hm, rfl⟩ := mem_map.mp hn
        have := snd_lt_of_mem_zipIdx hm
        exact this
      · simp [number, hcat]

/-! ### Resolution -/

/-- Resolving a set and asking for a number in use is asking what the set denotes. -/
theorem inSet_resolveSet (hm : m ∈ l.messages.zipIdx) (uid : Bool) (set : Option (List Seq)) :
    inSet L (resolveSet L set (maxNumber l.messages uid)) (requestedID uid m) = true ↔
      ∀ seqs ∈ set, Denotes (l.largest uid) seqs (number uid m) := by
  rw [maxNumber_eq, requestedID_eq hm]
  have htop : l.largest uid ≠ 0 := by
    have hmem : number uid m ∈ l.messages.zipIdx.map (number uid) :=
      mem_map.mpr ⟨m, hm, rfl⟩
    have hle : number uid m ≤ l.largest uid := le_max_of_le hmem le_rfl
    have := number_pos hm uid
    omega
  rcases set with - | seqs
  · simp [inSet, resolveSet]
  · have hends : ∀ r ∈ seqs.map fun seq =>
        (resolveEnd (l.largest uid) seq.start, resolveEnd (l.largest uid) seq.stop),
        r.1 ≠ 0 ∧ r.2 ≠ 0 := by
      intro r hr
      obtain ⟨seq, -, rfl⟩ := mem_map.mp hr
      have hend : ∀ n, resolveEnd (l.largest uid) n ≠ 0 := by
        intro n
        unfold resolveEnd
        split <;> assumption
      exact ⟨hend _, hend _⟩
    have hlaw := L.contains_addRanges _ hends _ (number_pos hm uid)
    rw [foldl_map] at hlaw
    simp only [inSet, resolveSet, if_neg htop, hlaw, Denotes, mem_map,
      exists_exists_and_eq_and, Option.mem_def, Option.some.injEq, forall_eq']

mutual

/-- The search of a resolved criterion decides its meaning. -/
theorem matchCriteria_resolve {r : Reading} (hm : m ∈ l.messages.zipIdx) : ∀ c : Criteria,
    matchCriteria U L (requestedID false m) m.1 r
      (resolveCriteria L (maxNumber l.messages false) (maxNumber l.messages true) c) = true ↔
      Holds U l m r c
  | ⟨seqNum, uid, tests, nots, ors⟩ => by
      have huid : inSet L (resolveSet L uid (maxNumber l.messages true)) m.1.uid = true ↔ _ :=
        inSet_resolveSet hm true uid
      rw [resolveCriteria, matchCriteria, Holds, ← inSet_resolveSet (L := L) hm false seqNum,
        ← huid, ← matchPairs_resolve hm ors]
      have hnots := not_congr (matchAny_resolve (r := r) hm nots)
      simp only [not_exists, not_and] at hnots
      rw [← hnots]
      simp only [Bool.if_false_left, Bool.and_eq_true, Bool.not_eq_true', Bool.not_eq_true,
        decide_eq_false_iff_not, Bool.not_eq_false]

theorem matchAny_resolve {r : Reading} (hm : m ∈ l.messages.zipIdx) : ∀ nots : List Criteria,
    matchAny U L (requestedID false m) m.1 r
      (resolveNots L (maxNumber l.messages false) (maxNumber l.messages true) nots) = true ↔
      ∃ sub ∈ nots, Holds U l m r sub
  | [] => by simp [resolveNots, matchAny]
  | sub :: rest => by
      rw [resolveNots, matchAny, exists_mem_cons_iff, ← matchCriteria_resolve hm sub,
        ← matchAny_resolve hm rest]
      simp

theorem matchPairs_resolve {r : Reading} (hm : m ∈ l.messages.zipIdx) :
    ∀ ors : List (Criteria × Criteria), matchPairs U L (requestedID false m) m.1 r
      (resolveOrs L (maxNumber l.messages false) (maxNumber l.messages true) ors) = true ↔
      ∀ pair ∈ ors, Holds U l m r pair.1 ∨ Holds U l m r pair.2
  | [] => by simp [resolveOrs, matchPairs]
  | (a, b) :: rest => by
      rw [resolveOrs, matchPairs, forall_mem_cons, ← matchCriteria_resolve hm a,
        ← matchCriteria_resolve hm b, ← matchPairs_resolve hm rest]
      grind

end

theorem searchFrom_eq {read : MessageSummary → Except String Reading} {uid : Bool} {c : Criteria}
    {reading : MessageSummary → Reading} {ms : List (MessageSummary × ℕ)}
    (hread : ∀ m ∈ ms, read m.1 = .ok (reading m.1)) :
    searchFrom U L read uid c ms = .ok ((ms.filter fun m =>
      matchCriteria U L (requestedID false m) m.1 (reading m.1) c).map (requestedID uid)) := by
  induction ms with
  | nil => rfl
  | cons m rest ih =>
    obtain ⟨hm, hrest⟩ := forall_mem_cons.mp hread
    rw [searchFrom, hm, ih hrest, filter_cons]
    dsimp only [bind, Except.bind]
    split <;> rfl

open Classical in
/-- A set selects exactly the messages it denotes, each once and in the order of the listing; a
search criterion is evaluated as the proposition it stands for, and `SearchMessages` lists the
messages for which it holds. -/
theorem sets_select (U : CaseTables) (L : SeqSets) (l : Listing) (uid : Bool) :
    (∀ set : List Seq, selectedIDs L l.messages uid (some set) =
      (l.messages.zipIdx.filter fun m =>
        decide (Denotes (l.largest uid) set (number uid m))).map (·.1.id)) ∧
    (∀ c : Criteria, ∀ m ∈ l.messages.zipIdx, ∀ r : Reading,
      (matchCriteria U L (requestedID false m) m.1 r
        (resolveCriteria L (maxNumber l.messages false) (maxNumber l.messages true) c) = true ↔
        Holds U l m r c)) ∧
    (∀ (c : Criteria) (read : MessageSummary → Except String Reading)
      (reading : MessageSummary → Reading), (∀ m ∈ l.messages, read m = .ok (reading m)) →
      searchMessages U L read l.messages uid (some c) = .ok ((l.messages.zipIdx.filter fun m =>
        decide (Holds U l m (reading m.1) c)).map (number uid))) := by
  refine ⟨fun set => ?_, fun c m hm r => matchCriteria_resolve hm c, fun c read reading hread => ?_⟩
  · refine congrArg (map _) (filter_congr fun m hm => ?_)
    rw [Bool.eq_iff_iff, inSet_resolveSet hm, decide_eq_true_iff]
    simp
  · rw [searchMessages, searchFrom_eq fun m hm => hread m.1 (fst_mem_of_mem_zipIdx hm)]
    have hfilter : ∀ m ∈ l.messages.zipIdx, matchCriteria U L (requestedID false m) m.1
        (reading m.1) (resolveCriteria L (maxNumber l.messages false)
          (maxNumber l.messages true) c) = decide (Holds U l m (reading m.1) c) := by
      intro m hm
      rw [Bool.eq_iff_iff, matchCriteria_resolve hm, decide_eq_true_iff]
    rw [filter_congr hfilter]
    exact congrArg Except.ok (map_congr_left fun m hm =>
      requestedID_eq (mem_of_mem_filter hm) uid)

theorem any_foldl_range (ranges : List (ℕ × ℕ)) (q : ℕ) (set : List Seq) :
    ((ranges.foldl (fun set r => ⟨min r.1 r.2, max r.1 r.2⟩ :: set) set).any
      fun s => s.start ≤ q && q ≤ s.stop) = true ↔
      (∃ r ∈ ranges, min r.1 r.2 ≤ q ∧ q ≤ max r.1 r.2) ∨
        (set.any fun s => s.start ≤ q && q ≤ s.stop) = true := by
  induction ranges generalizing set with
  | nil => simp
  | cons r rest ih =>
    rw [foldl_cons, ih, exists_mem_cons_iff]
    simp only [any_cons, Bool.or_eq_true, Bool.and_eq_true, decide_eq_true_eq]
    exact or_left_comm.trans or_assoc.symm

/-- Sets kept as the list of their ranges. -/
def rangeSets : SeqSets where
  addRange set a b := ⟨min a b, max a b⟩ :: set
  contains set q := set.any fun s => s.start ≤ q && q ≤ s.stop
  contains_addRanges ranges _ q _ := by
    rw [any_foldl_range]
    exact or_iff_left (by simp)

def twoMessages : Listing where
  messages := [⟨"a", 4, ["\\Seen"], 10, {}⟩, ⟨"b", 9, [], 20, {}⟩]
  ascending := by decide
  uids := by decide

open Classical in
theorem sets_select_two :
    selectedIDs rangeSets twoMessages.messages true (some [⟨0, 30⟩]) = ["b"] ∧
      searchMessages asciiTables rangeSets (fun _ => .ok {}) twoMessages.messages false
        (some ⟨some [⟨0, 1⟩], none, {}, [⟨none, none, { withFlags := ["\\seen"] }, [], []⟩], []⟩) =
        .ok ((twoMessages.messages.zipIdx.filter fun m => decide (Holds asciiTables twoMessages m {}
          ⟨some [⟨0, 1⟩], none, {}, [⟨none, none, { withFlags := ["\\seen"] }, [], []⟩], []⟩)).map
          (number false)) :=
  ⟨by decide, (sets_select asciiTables rangeSets twoMessages false).2.2 _ _ (fun _ => {})
    fun _ _ => rfl⟩

end EmailService.SearchSets
