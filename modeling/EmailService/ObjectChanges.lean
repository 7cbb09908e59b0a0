/-
EmailService/ObjectChanges.lean

EmailSubmission/changes and Thread/changes (internal/jmap/query_sync.go and thread.go).

Both compare a remembered list of versions, `id NUL version`, with the objects there
are now.  `submissionChanges` reports at most as many changes as asked for and
remembers the objects as the client then has them under a token of their own, so that
a client can go on from there; the number of changes left shrinks with every page.
`threadChanges` reports all changes or none.

`changes_converge` says exactly when a client that follows the pages ends with the
current objects.
-/
import EmailService.EmailQuery

namespace EmailService.Jmap

open Json Utf8 List Nat

/-! ### Maps of texts -/

/-- `map[string]string`. -/
abbrev Index := Std.ExtTreeMap Text Text compare

/-- Put pairs in one after the other. -/
def insertAll (pairs : List (Text × Text)) (m : Index) : Index :=
  pairs.foldl (fun m p => m.insert p.1 p.2) m

variable {α : Type} {key : α → Text} {l : List α} {m : Index} {id : Text}

theorem getElem?_insertAll (val : α → Text) (h : (l.map key).Nodup) (k v : Text) :
    (insertAll (l.map fun a => (key a, val a)) m)[k]? = some v ↔
      (∃ a ∈ l, key a = k ∧ val a = v) ∨ k ∉ l.map key ∧ m[k]? = some v := by
  induction l generalizing m with
  | nil => simp [insertAll]
  | cons a l ih =>
    obtain ⟨hnew, hnodup⟩ := nodup_cons.mp h
    have hput : insertAll ((a :: l).map fun a => (key a, val a)) m =
      insertAll (l.map fun a => (key a, val a)) (m.insert (key a) (val a)) := rfl
    rw [hput, ih hnodup, Std.ExtTreeMap.getElem?_insert, exists_mem_cons_iff, map_cons,
      mem_cons]
    by_cases hk : key a = k
    · subst hk
      have hnot : ¬∃ b ∈ l, key b = key a ∧ val b = v := fun ⟨b, hb, hkey, _⟩ =>
        hnew (mem_map.mpr ⟨b, hb, hkey⟩)
      simp [hnot, hnew]
    · have hne : compare (key a) k ≠ .eq := fun heq => hk (Std.LawfulEqCmp.compare_eq_iff_eq.mp heq)
      simp [hne, hk, Ne.symm hk]

/-- A map has at most as many entries as a list that has all its keys. -/
theorem length_toList_le {ids : List Text} (h : ∀ id : Text, m[id]? ≠ none → id ∈ ids) :
    m.toList.length ≤ ids.length := by
  rw [← length_map Prod.fst, Std.ExtTreeMap.map_fst_toList_eq_keys]
  refine (Std.ExtTreeMap.nodup_keys.subperm fun id hid => h id ?_).length_le
  exact Option.isSome_iff_ne_none.mp
    (Std.ExtTreeMap.mem_iff_isSome_getElem?.mp (Std.ExtTreeMap.mem_keys.mp hid))

theorem mem_keys_iff : id ∈ m.keys ↔ m[id]? ≠ none := by
  rw [Std.ExtTreeMap.mem_keys, Std.ExtTreeMap.mem_iff_isSome_getElem?, Option.isSome_iff_ne_none]

/-- The element of a list with this key, if keys are unique. -/
theorem find?_key_eq_some (h : (l.map key).Nodup) {k : Text} {a : α} :
    (l.find? fun a => key a = k) = some a ↔ a ∈ l ∧ key a = k := by
  constructor
  · intro ha
    exact ⟨mem_of_find?_eq_some ha, by simpa using find?_some ha⟩
  · rintro ⟨ha, rfl⟩
    have hsome : (l.find? fun a' => key a' = key a).isSome := by
      rw [find?_isSome]
      exact ⟨a, ha, by simp⟩
    obtain ⟨a', ha'⟩ := Option.isSome_iff_exists.mp hsome
    have hkey : key a' = key a := by simpa using find?_some ha'
    rw [ha', inj_on_of_nodup_map h (mem_of_find?_eq_some ha') ha hkey]

/-- `sort.Strings`. -/
def sortTexts (l : List Text) : List Text := l.insertionSort (· ≤ ·)

theorem perm_sortTexts (l : List Text) : (sortTexts l).Perm l := perm_insertionSort _ _

/-! ### Versions -/

/-- What `strings.Cut(v, "\x00")` returns first. -/
def cutKey (v : Text) : Text := v.takeWhile (· ≠ 0)

/-- What it returns second. -/
def cutRest (v : Text) : Text := (v.dropWhile (· ≠ 0)).tail

/-- A version of an object. -/
def version (id text : Text) : Text := id ++ 0 :: text

theorem cutKey_version (h : 0 ∉ id) (text : Text) : cutKey (version id text) = id := by
  have hall : ∀ b ∈ id, decide (b ≠ 0) = true := fun b hb =>
    decide_eq_true fun h0 => h (h0 ▸ hb)
  rw [cutKey, version, takeWhile_append_of_pos hall]
  simp

theorem cutRest_version (h : 0 ∉ id) (text : Text) : cutRest (version id text) = text := by
  have hall : ∀ b ∈ id, decide (b ≠ 0) = true := fun b hb =>
    decide_eq_true fun h0 => h (h0 ▸ hb)
  rw [cutRest, version, dropWhile_append_of_pos hall]
  simp

theorem valid_version {text : Text} (hid : Valid id) (htext : Valid text) :
    Valid (version id text) :=
  valid_append hid (valid_append (l := [0]) (valid_of_ascii (by simp)) htext)

/-! ### Pages -/

structure ChangesPage where
  oldState : Text
  newState : Text
  hasMoreChanges : Bool
  created : List Text
  updated : List Text
  destroyed : List Text
  deriving DecidableEq

/-- What a client makes of a page. -/
def ChangesPage.page (p : ChangesPage) : Delta.Page Text := ⟨p.destroyed, p.created ++ p.updated⟩

/-- The arguments of a call. -/
def changesArgs (since : Text) (maxChanges : Value) : Args :=
  [("sinceState", .str since), ("maxChanges", maxChanges)]

/-- Follow the pages of a method, with a limit for each of them; at most `n` pages. -/
def chase (method : Args → Snapshots → Except String ChangesPage × Snapshots) :
    (ℕ → Value) → ℕ → Text → Snapshots → Except String (List ChangesPage)
  | _, 0, _, _ => .error "more"
  | limits, n + 1, since, t =>
    match method (changesArgs since (limits 0)) t with
    | (.error err, _) => .error err
    | (.ok page, t) =>
      if page.hasMoreChanges then
        (chase method (fun k => limits (k + 1)) n page.newState t).map (page :: ·)
      else .ok [page]

/-- The pages come to an end, report every difference and lead to the objects of the server. -/
def Converges {ν : Type} (method : Args → Snapshots → Except String ChangesPage × Snapshots)
    (limits : ℕ → Value) (since : Text) (t : Snapshots) (server client : Text → Option ν) : Prop :=
  ∃ n pages, chase method limits n since t = .ok pages ∧
    Delta.refreshAll server client (pages.map ChangesPage.page) = server ∧
    ∀ id, client id ≠ server id → ∃ p ∈ pages, p.page.Reports id

/-- A limit that is accepted. -/
def IsLimit (maxChanges : Value) : Prop :=
  ∃ n, numericLimit (changesArgs [] maxChanges) "maxChanges" maxJMAPObjects = some (n + 1)

/-! ### Submissions -/

/-- `mailstate.Submission` as it is read from a receipt: the texts are UTF-8, and the ID is a
UUID. -/
structure Submission where
  id : Text
  emailID : Text
  identityID : Text
  threadID : Text
  sendAt : Text
  undoStatus : Text
  envelope : Value
  deliveryStatus : Value
  noNul : 0 ∉ id
  texts : ∀ s ∈ [id, emailID, identityID, threadID, sendAt, undoStatus], Valid s
  values : ∀ v ∈ [envelope, deliveryStatus], v.Sound ∧ v.repaired = v

namespace Submission

variable (s : Submission)

def value : Value :=
  .obj [(bytes "id", .str s.id), (bytes "emailId", .str s.emailID),
    (bytes "identityId", .str s.identityID), (bytes "threadId", .str s.threadID),
    (bytes "sendAt", .str s.sendAt), (bytes "undoStatus", .str s.undoStatus),
    (bytes "envelope", s.envelope), (bytes "deliveryStatus", s.deliveryStatus)]

def marshal : Text := s.value.print

theorem sound_value : s.value.Sound := by
  have henvelope := s.values s.envelope (by simp)
  have hstatus := s.values s.deliveryStatus (by simp)
  exact ⟨trivial, trivial, trivial, trivial, trivial, trivial, henvelope.1, hstatus.1, trivial⟩

theorem repaired_value : s.value.repaired = s.value := by
  have htext (t : Text) (h : t ∈ [s.id, s.emailID, s.identityID, s.threadID, s.sendAt,
      s.undoStatus]) : repair t = t := repair_of_valid (s.texts t h)
  simp only [value, Value.repaired, repairedMembers, repair_bytes, htext s.id (by simp),
    htext s.emailID (by simp), htext s.identityID (by simp), htext s.threadID (by simp),
    htext s.sendAt (by simp), htext s.undoStatus (by simp), (s.values s.envelope (by simp)).2,
    (s.values s.deliveryStatus (by simp)).2]

/-- The encoding determines the submission. -/
theorem marshal_injective : Function.Injective marshal := by
  intro s s' h
  have hvalue := repaired_eq_of_print s.sound_value s'.sound_value h
  rw [repaired_value, repaired_value] at hvalue
  simp only [value, Value.obj.injEq, cons.injEq, Prod.mk.injEq, Value.str.injEq, true_and,
    and_true] at hvalue
  cases s
  cases s'
  simp only [mk.injEq]
  exact hvalue

end Submission

/-- `receiptVersion`. -/
def receiptVersion (s : Submission) : Text :=
  version s.id (hexEncode (Sha256.sum256 s.marshal))

theorem cutKey_receiptVersion (s : Submission) : cutKey (receiptVersion s) = s.id :=
  cutKey_version s.noNul _

theorem valid_receiptVersion (s : Submission) : Valid (receiptVersion s) :=
  valid_version (s.texts s.id (by simp)) (valid_hexEncode _)

/-- The sort of `submissionState`. -/
def sortSubmissions (list : List Submission) : List Submission :=
  list.insertionSort fun s s' => s.id ≤ s'.id

variable (user : Text) (list : List Submission)

/-- `submissionState`, of a sorted list. -/
def submissionState : Text :=
  fingerprint "s1:" (user ++ bytes ":" ++ (Value.arr (list.map Submission.value)).print)

/-- `rememberSubmissions`, of a sorted list. -/
def rememberSubmissions (t : Snapshots) : Text × Snapshots :=
  (submissionState user list,
    (t.save user "receipts" [] (submissionState user list) (list.map receiptVersion)).getD t)

/-- The versions that are remembered, by ID. -/
def receiptIndex (old : List Text) : Index := insertAll (old.map fun v => (cutKey v, v)) ∅

/-- Submissions that are gone, new, or changed. -/
structure Changes where
  destroyed : List Text
  created : List Text
  updated : List Text

/-- All of them. -/
def Changes.ids (c : Changes) : List Text := c.destroyed ++ (c.created ++ c.updated)

theorem Changes.mem_ids {c : Changes} :
    id ∈ c.ids ↔ id ∈ c.destroyed ∨ id ∈ c.created ++ c.updated :=
  mem_append

/-- The comparison of `submissionChanges`. -/
def compareSubmissions (before : Index) (list : List Submission) : Changes where
  destroyed := sortTexts (before.keys.filter fun id => !list.any (·.id = id))
  created := (list.filter fun s => before[s.id]? = none).map Submission.id
  updated := (list.filter fun s =>
    before[s.id]? ≠ none && before[s.id]? ≠ some (receiptVersion s)).map Submission.id

/-- As many changes as a page may have: destroyed ones first, then created ones. -/
def Changes.firstPage (limit : ℕ) (c : Changes) : Changes :=
  let destroyed := c.destroyed.take limit
  let created := c.created.take (limit - destroyed.length)
  ⟨destroyed, created, c.updated.take (limit - destroyed.length - created.length)⟩

/-- The versions as the client has them after a page. -/
def advance (before : Index) (list : List Submission) (page : Changes) : Index :=
  insertAll ((list.filter fun s => s.id ∈ page.created ++ page.updated).map fun s =>
    (s.id, receiptVersion s)) (before.filter fun id _ => id ∉ page.destroyed)

/-- The versions of an index, sorted. -/
def versionsOf (m : Index) : List Text := sortTexts (m.toList.map Prod.snd)

/-- The state after a page that is not the last. -/
def pageState (user : Text) (versions : List Text) : Text :=
  fingerprint "sp2:" (Value.arr [.str user, strings versions]).print

/-- The answer. -/
def Changes.answer (c : Changes) (oldState newState : Text) (more : Bool) : ChangesPage :=
  ⟨oldState, newState, more, c.created, c.updated, c.destroyed⟩

/-- The end of `submissionChanges`, with the remembered versions and the sorted list. -/
def submissionPage (user since : Text) (limit : ℕ) (before : Index) (list : List Submission)
    (state : Text) (t : Snapshots) : Except String ChangesPage × Snapshots :=
  let changes := compareSubmissions before list
  if limit < changes.ids.length then
    let page := changes.firstPage limit
    let versions := versionsOf (advance before list page)
    match t.save user "receipts" [] (pageState user versions) versions with
    | none => (.error "serverFail", t)
    | some t => (.ok (page.answer since (pageState user versions) true), t)
  else (.ok (changes.answer since state false), t)

/-- `submissionChanges`; `list` is what `Submissions` returns. -/
def submissionChanges (args : Args) (t : Snapshots) : Except String ChangesPage × Snapshots :=
  if !args.only ["accountId", "sinceState", "maxChanges"] then (.error "invalidArguments", t)
  else match args.get "sinceState", numericLimit args "maxChanges" maxJMAPObjects with
  | .str since, some (limit + 1) =>
    match t.load user "receipts" [] since with
    | none => (.error "cannotCalculateChanges", t)
    | some old =>
      let list := sortSubmissions list
      let (state, t) := rememberSubmissions user list t
      if 10000 < list.length then (.error "cannotCalculateChanges", t)
      else submissionPage user since (min (limit + 1) maxJMAPObjects) (receiptIndex old) list
        state t
  | _, _ => (.error "invalidArguments", t)

/-! ### What a page of submissions does -/

/-- The version of a submission that there is now. -/
def currentVersion (list : List Submission) (id : Text) : Option Text :=
  (list.find? fun s => s.id = id).map receiptVersion

/-- The remembered versions: each stands under its own ID. -/
def Keyed (before : Index) : Prop := ∀ id v, before[id]? = some v → cutKey v = id ∧ Valid v

section Lists

variable {list : List Submission} {id v : Text} {before : Index}

theorem currentVersion_eq_none : currentVersion list id = none ↔ ∀ s ∈ list, s.id ≠ id := by
  simp [currentVersion]

theorem exists_of_currentVersion_ne_none (h : currentVersion list id ≠ none) :
    ∃ s ∈ list, s.id = id := by
  by_contra hnone
  exact h (currentVersion_eq_none.mpr fun s hs hid => hnone ⟨s, hs, hid⟩)

/-- What is destroyed is remembered and gone. -/
theorem mem_destroyed :
    id ∈ (compareSubmissions before list).destroyed ↔
      before[id]? ≠ none ∧ currentVersion list id = none := by
  rw [compareSubmissions, (perm_sortTexts _).mem_iff, mem_filter, mem_keys_iff,
    currentVersion_eq_none]
  simp

variable (c : Changes) (limit : ℕ)

/-- A page is the beginning of the changes. -/
theorem ids_firstPage : (c.firstPage limit).ids = c.ids.take limit := by
  simp only [Changes.ids, Changes.firstPage, take_append, length_take]
  congr 2
  · congr 1
    omega
  · congr 1
    omega

theorem destroyed_firstPage_subset : (c.firstPage limit).destroyed ⊆ c.destroyed :=
  take_subset _ _

theorem created_updated_firstPage_subset :
    (c.firstPage limit).created ++ (c.firstPage limit).updated ⊆ c.created ++ c.updated :=
  append_subset.mpr
    ⟨fun _ h => mem_append_left _ (mem_of_mem_take h),
      fun _ h => mem_append_right _ (mem_of_mem_take h)⟩

/-- The versions after a page. -/
abbrev nextVersions (before : Index) (list : List Submission) (limit : ℕ) : Index :=
  advance before list ((compareSubmissions before list).firstPage limit)

variable (hnodup : (list.map Submission.id).Nodup)

include hnodup

theorem currentVersion_of_mem {s : Submission} (hs : s ∈ list) :
    currentVersion list s.id = some (receiptVersion s) := by
  rw [currentVersion, (find?_key_eq_some hnodup).mpr ⟨hs, rfl⟩, Option.map_some]

theorem currentVersion_eq_some :
    currentVersion list id = some v ↔ ∃ s ∈ list, s.id = id ∧ receiptVersion s = v := by
  constructor
  · intro h
    obtain ⟨s, hs, hv⟩ := Option.map_eq_some_iff.mp h
    obtain ⟨hmem, hid⟩ := (find?_key_eq_some hnodup).mp hs
    exact ⟨s, hmem, hid, hv⟩
  · rintro ⟨s, hs, rfl, rfl⟩
    exact currentVersion_of_mem hnodup hs

/-- What is created or updated is there, in another version than is remembered. -/
theorem mem_created_updated :
    id ∈ (compareSubmissions before list).created ++ (compareSubmissions before list).updated ↔
      currentVersion list id ≠ none ∧ before[id]? ≠ currentVersion list id := by
  simp only [compareSubmissions, mem_append, mem_map, mem_filter]
  constructor
  · rintro (⟨s, ⟨hs, hb⟩, rfl⟩ | ⟨s, ⟨hs, hb⟩, rfl⟩)
    · rw [currentVersion_of_mem hnodup hs, of_decide_eq_true hb]
      exact ⟨nofun, nofun⟩
    · rw [currentVersion_of_mem hnodup hs]
      simp only [Bool.and_eq_true, decide_eq_true_eq] at hb
      exact ⟨nofun, hb.2⟩
  · rintro ⟨hthere, hne⟩
    obtain ⟨s, hs, rfl⟩ := exists_of_currentVersion_ne_none hthere
    rw [currentVersion_of_mem hnodup hs] at hne
    by_cases hb : before[s.id]? = none
    · exact .inl ⟨s, ⟨hs, decide_eq_true hb⟩, rfl⟩
    · exact .inr ⟨s, ⟨hs, by simp [hb, hne]⟩, rfl⟩

/-- The changes are the IDs on which remembered and current versions differ. -/
theorem mem_ids_compareSubmissions :
    id ∈ (compareSubmissions before list).ids ↔ before[id]? ≠ currentVersion list id := by
  rw [Changes.mem_ids, mem_destroyed, mem_created_updated hnodup]
  by_cases hthere : currentVersion list id = none <;> simp [hthere]

theorem nodup_ids_compareSubmissions (before : Index) :
    (compareSubmissions before list).ids.Nodup := by
  have hsome (p : Submission → Bool) : ((list.filter p).map Submission.id).Nodup :=
    hnodup.sublist (filter_sublist.map _)
  have hapart : (compareSubmissions before list).created.Disjoint
      (compareSubmissions before list).updated := by
    rintro id hc hu
    obtain ⟨s, hs, rfl⟩ := mem_map.mp hc
    obtain ⟨s', hs', hid⟩ := mem_map.mp hu
    have hnone := of_decide_eq_true (mem_filter.mp hs).2
    have hsome := (mem_filter.mp hs').2
    simp [hid, hnone] at hsome
  refine List.Nodup.append ((perm_sortTexts _).nodup_iff.mpr (Std.ExtTreeMap.nodup_keys.filter _))
    (List.Nodup.append (hsome _) (hsome _) hapart) fun id hd hcu => ?_
  exact ((mem_created_updated hnodup).mp hcu).1 (mem_destroyed.mp hd).2

/-- After a page, the versions it reports are the current ones. -/
theorem getElem?_nextVersions (before : Index) (limit : ℕ) (id : Text) :
    (nextVersions before list limit)[id]? =
      if id ∈ ((compareSubmissions before list).firstPage limit).ids then currentVersion list id
      else before[id]? := by
  have hcome := @created_updated_firstPage_subset (compareSubmissions before list) limit id
  have hgone := @destroyed_firstPage_subset (compareSubmissions before list) limit id
  rw [mem_created_updated hnodup] at hcome
  rw [mem_destroyed] at hgone
  refine Option.ext fun v => ?_
  rw [nextVersions, advance,
    getElem?_insertAll _ (hnodup.sublist (filter_sublist.map Submission.id)),
    Std.ExtTreeMap.getElem?_filter']
  simp only [Changes.mem_ids]
  generalize (compareSubmissions before list).firstPage limit = page at hcome hgone ⊢
  have hkey : id ∈ (list.filter fun s => s.id ∈ page.created ++ page.updated).map Submission.id ↔
      id ∈ page.created ++ page.updated := by
    simp only [mem_map, mem_filter, decide_eq_true_eq]
    refine ⟨fun ⟨s, hs, hid⟩ => hid ▸ hs.2, fun h => ?_⟩
    obtain ⟨s, hs, hid⟩ := exists_of_currentVersion_ne_none (hcome h).1
    exact ⟨s, ⟨hs, hid ▸ h⟩, hid⟩
  by_cases h : id ∈ page.created ++ page.updated
  · rw [if_pos (.inr h), currentVersion_eq_some hnodup]
    simp only [hkey, h, not_true_eq_false, false_and, or_false, mem_filter, decide_eq_true_eq]
    exact ⟨fun ⟨s, hs, hid⟩ => ⟨s, hs.1, hid⟩, fun ⟨s, hs, hid⟩ => ⟨s, ⟨hs, hid.1 ▸ h⟩, hid⟩⟩
  · have hnot : ¬∃ s ∈ list.filter fun s => s.id ∈ page.created ++ page.updated,
        s.id = id ∧ receiptVersion s = v := fun ⟨s, hs, hid, _⟩ =>
      h (hkey.mp (mem_map.mpr ⟨s, hs, hid⟩))
    rw [or_iff_right hnot, and_iff_right (hkey.not.mpr h)]
    by_cases hd : id ∈ page.destroyed
    · simp [hd, (hgone hd).2]
    · simp [h, hd]

/-- A page leaves fewer changes. -/
theorem length_ids_nextVersions (before : Index) {limit : ℕ} (hlimit : 0 < limit)
    (hmore : limit < (compareSubmissions before list).ids.length) :
    (compareSubmissions (nextVersions before list limit) list).ids.length <
      (compareSubmissions before list).ids.length := by
  obtain ⟨id, ids, hids⟩ : ∃ id ids, (compareSubmissions before list).ids = id :: ids :=
    exists_cons_of_length_pos (by omega)
  have hpage : id ∈ ((compareSubmissions before list).firstPage limit).ids := by
    rw [ids_firstPage, hids, ← succ_pred_eq_of_pos hlimit]
    exact mem_cons_self
  have hsettled : id ∉ (compareSubmissions (nextVersions before list limit) list).ids := by
    rw [mem_ids_compareSubmissions hnodup, getElem?_nextVersions hnodup, if_pos hpage]
    exact fun h => h rfl
  have hsub : id :: (compareSubmissions (nextVersions before list limit) list).ids ⊆
      (compareSubmissions before list).ids := by
    refine cons_subset.mpr ⟨hids ▸ mem_cons_self, fun id' hid' => ?_⟩
    rw [mem_ids_compareSubmissions hnodup, getElem?_nextVersions hnodup] at hid'
    split at hid'
    · exact absurd rfl hid'
    · exact (mem_ids_compareSubmissions hnodup).mpr hid'
  exact ((nodup_ids_compareSubmissions hnodup _).cons hsettled).subperm hsub |>.length_le

/-- No page makes a list that is too long: what is gone goes first. -/
theorem length_nextVersions (before : Index) (limit : ℕ) {n : ℕ}
    (hbefore : before.toList.length ≤ n) (hlist : list.length ≤ n) :
    (nextVersions before list limit).toList.length ≤ n := by
  rcases lt_or_ge limit (compareSubmissions before list).destroyed.length with hmany | hfew
  · rw [← length_map Prod.fst, Std.ExtTreeMap.map_fst_toList_eq_keys] at hbefore
    refine (length_toList_le fun id hid => ?_).trans hbefore
    rw [getElem?_nextVersions hnodup, ids_firstPage] at hid
    split at hid
    · next hpage =>
      rw [Changes.ids, take_append_of_le_length hmany.le] at hpage
      exact absurd (mem_destroyed.mp (mem_of_mem_take hpage)).2 hid
    · exact mem_keys_iff.mpr hid
  · rw [← length_map Submission.id] at hlist
    refine (length_toList_le fun id hid => ?_).trans hlist
    by_contra hnot
    have hnone : currentVersion list id = none :=
      currentVersion_eq_none.mpr fun s hs hs' => hnot (mem_map.mpr ⟨s, hs, hs'⟩)
    rw [getElem?_nextVersions hnodup, hnone] at hid
    split at hid
    · exact hid rfl
    · next hpage =>
      refine hpage (Changes.mem_ids.mpr (.inl ?_))
      rw [Changes.firstPage, take_of_length_le hfew, mem_destroyed]
      exact ⟨hid, hnone⟩

theorem keyed_of_currentVersion (h : currentVersion list id = some v) :
    cutKey v = id ∧ Valid v := by
  obtain ⟨s, -, hid, rfl⟩ := (currentVersion_eq_some hnodup).mp h
  exact ⟨(cutKey_receiptVersion s).trans hid, valid_receiptVersion s⟩

theorem Keyed.nextVersions (h : Keyed before) (limit : ℕ) :
    Keyed (nextVersions before list limit) := by
  intro id v hv
  rw [getElem?_nextVersions hnodup] at hv
  split at hv
  · exact keyed_of_currentVersion hnodup hv
  · exact h id v hv

end Lists

/-! ### Remembered versions -/

theorem getElem?_receiptIndex {old : List Text} (h : (old.map cutKey).Nodup) (id v : Text) :
    (receiptIndex old)[id]? = some v ↔ v ∈ old ∧ cutKey v = id := by
  rw [receiptIndex, getElem?_insertAll (fun v => v) h]
  simp only [Std.ExtTreeMap.getElem?_empty, reduceCtorEq, and_false, or_false]
  constructor
  · rintro ⟨_, hv, hid, rfl⟩
    exact ⟨hv, hid⟩
  · rintro ⟨hv, hid⟩
    exact ⟨v, hv, hid, rfl⟩

theorem perm_versionsOf (m : Index) : (versionsOf m).Perm (m.toList.map Prod.snd) :=
  perm_insertionSort _ _

theorem mem_versionsOf {v : Text} : v ∈ versionsOf m ↔ ∃ id : Text, m[id]? = some v := by
  rw [(perm_versionsOf m).mem_iff, mem_map]
  constructor
  · rintro ⟨⟨id, _⟩, hmem, rfl⟩
    exact ⟨id, Std.ExtTreeMap.mem_toList_iff_getElem?_eq_some.mp hmem⟩
  · rintro ⟨id, hid⟩
    exact ⟨(id, v), Std.ExtTreeMap.mem_toList_iff_getElem?_eq_some.mpr hid, rfl⟩

theorem Keyed.nodup_versionsOf (h : Keyed m) : ((versionsOf m).map cutKey).Nodup := by
  have hperm := (perm_versionsOf m).map cutKey
  have hkeys : (m.toList.map Prod.snd).map cutKey = m.toList.map Prod.fst := by
    rw [map_map]
    refine map_congr_left fun p hp => ?_
    exact (h p.1 p.2 (Std.ExtTreeMap.mem_toList_iff_getElem?_eq_some.mp hp)).1
  rw [hperm.nodup_iff, hkeys, Std.ExtTreeMap.map_fst_toList_eq_keys]
  exact Std.ExtTreeMap.nodup_keys

/-- A saved index is read back. -/
theorem Keyed.receiptIndex_versionsOf (h : Keyed m) : receiptIndex (versionsOf m) = m := by
  refine Std.ExtTreeMap.ext_getElem? fun id => Option.ext fun v => ?_
  rw [getElem?_receiptIndex h.nodup_versionsOf, mem_versionsOf]
  constructor
  · rintro ⟨⟨id', hid'⟩, rfl⟩
    rw [(h id' v hid').1]
    exact hid'
  · intro hid
    exact ⟨⟨id, hid⟩, (h id v hid).1⟩

theorem Keyed.map_repair_versionsOf (h : Keyed m) : (versionsOf m).map repair = versionsOf m :=
  map_repair_of_valid fun v hv => by
    obtain ⟨id, hid⟩ := mem_versionsOf.mp hv
    exact (h id v hid).2

/-! ### Following the pages -/

section Submissions

variable {user : Text} {list : List Submission}

theorem numericLimit_changesArgs (since : Text) (maxChanges : Value) :
    numericLimit (changesArgs since maxChanges) "maxChanges" maxJMAPObjects =
      numericLimit (changesArgs [] maxChanges) "maxChanges" maxJMAPObjects := rfl

theorem perm_sortSubmissions (list : List Submission) : (sortSubmissions list).Perm list :=
  perm_insertionSort _ _

theorem length_sortSubmissions (list : List Submission) :
    (sortSubmissions list).length = list.length :=
  (perm_sortSubmissions list).length_eq

variable {limit : ℕ} {since : Text} {t : Snapshots} {old : List Text} {limits : ℕ → Value}

/-- A call with a remembered state. -/
theorem submissionChanges_eq (list : List Submission) {maxChanges : Value}
    (hlimit : numericLimit (changesArgs [] maxChanges) "maxChanges" maxJMAPObjects =
      some (limit + 1)) (hold : t.load user "receipts" [] since = some old) :
    submissionChanges user list (changesArgs since maxChanges) t =
      if 10000 < list.length then
        (.error "cannotCalculateChanges", (rememberSubmissions user (sortSubmissions list) t).2)
      else submissionPage user since (min (limit + 1) maxJMAPObjects) (receiptIndex old)
        (sortSubmissions list) (submissionState user (sortSubmissions list))
        (rememberSubmissions user (sortSubmissions list) t).2 := by
  have honly : (changesArgs since maxChanges).only ["accountId", "sinceState", "maxChanges"] =
    true := rfl
  have hsince : (changesArgs since maxChanges).get "sinceState" = .str since := rfl
  rw [submissionChanges, honly, hsince, numericLimit_changesArgs, hlimit]
  simp only [Bool.not_true, Bool.false_eq_true, if_false, hold, length_sortSubmissions]
  rfl

/-- What a page does, for a client that has the versions `before`. -/
structure PageSpec (user : Text) (list : List Submission) (before : Index) (page : ChangesPage)
    (t : Snapshots) : Prop where
  honest : ∀ id ∈ page.destroyed, currentVersion list id = none
  last : page.hasMoreChanges = false →
    ∀ id : Text, before[id]? ≠ currentVersion list id → page.page.Reports id
  more : page.hasMoreChanges = true → ∃ old, t.load user "receipts" [] page.newState = some old ∧
    Keyed (receiptIndex old) ∧ (receiptIndex old).toList.length ≤ 10000 ∧
    (compareSubmissions (receiptIndex old) list).ids.length <
      (compareSubmissions before list).ids.length ∧
    ∀ id : Text, (receiptIndex old)[id]? = before[id]? ∨ page.page.Reports id

theorem submissionPage_spec (user : Text) (hnodup : (list.map Submission.id).Nodup)
    (hlist : list.length ≤ 10000) {before : Index} (hkeyed : Keyed before)
    (hsize : before.toList.length ≤ 10000) (hlimit : 0 < limit) (since state : Text)
    (t : Snapshots) : ∃ page t', submissionPage user since limit before list state t =
      (.ok page, t') ∧ PageSpec user list before page t' := by
  by_cases hmore : limit < (compareSubmissions before list).ids.length
  · have hkeyed' := hkeyed.nextVersions hnodup limit
    have hsize' := length_nextVersions hnodup before limit hsize hlist
    obtain ⟨versions, hversions⟩ : ∃ versions, versions =
      versionsOf (nextVersions before list limit) := ⟨_, rfl⟩
    have hlength : ¬10000 < versions.length := by
      rw [hversions, (perm_versionsOf _).length_eq, length_map]
      exact not_lt.mpr hsize'
    obtain ⟨t', ht'⟩ : ∃ t', t.save user "receipts" [] (pageState user versions) versions =
      some t' := ⟨_, if_neg hlength⟩
    refine ⟨((compareSubmissions before list).firstPage limit).answer since
      (pageState user versions) true, t', ?_, ?_⟩
    · simp only [submissionPage, if_pos hmore, ← hversions, ht']
    · refine ⟨fun id hid => (mem_destroyed.mp (destroyed_firstPage_subset _ _ hid)).2, nofun,
        fun _ => ⟨_, Snapshots.load_save ht', ?_⟩⟩
      rw [hversions, hkeyed'.map_repair_versionsOf, hkeyed'.receiptIndex_versionsOf]
      refine ⟨hkeyed', hsize', length_ids_nextVersions hnodup before hlimit hmore, fun id => ?_⟩
      rw [getElem?_nextVersions hnodup]
      split
      · next hpage => exact .inr (Changes.mem_ids.mp hpage)
      · exact .inl rfl
  · refine ⟨(compareSubmissions before list).answer since state false, t, ?_, ?_⟩
    · simp only [submissionPage, if_neg hmore]
    · refine ⟨fun id hid => (mem_destroyed.mp hid).2, fun _ id hid => ?_, nofun⟩
      exact Changes.mem_ids.mp ((mem_ids_compareSubmissions hnodup).mpr hid)

/-- The pages end, what they report as destroyed is gone, and they report every ID on which the
remembered versions differ from the current ones.  By induction on the number of changes. -/
theorem chase_submissions (hnodup : (list.map Submission.id).Nodup) (hlist : list.length ≤ 10000)
    (hlimits : ∀ k, IsLimit (limits k)) (hold : t.load user "receipts" [] since = some old)
    (hkeyed : Keyed (receiptIndex old)) (hsize : (receiptIndex old).toList.length ≤ 10000) :
    ∃ n pages, chase (submissionChanges user list) limits n since t = .ok pages ∧
      (∀ p ∈ pages, ∀ id ∈ p.destroyed, currentVersion (sortSubmissions list) id = none) ∧
      ∀ id : Text, (receiptIndex old)[id]? ≠ currentVersion (sortSubmissions list) id →
        ∃ p ∈ pages, p.page.Reports id := by
  have hnodup' : ((sortSubmissions list).map Submission.id).Nodup :=
    ((perm_sortSubmissions list).map _).nodup_iff.mpr hnodup
  have hlist' : (sortSubmissions list).length ≤ 10000 :=
    (length_sortSubmissions list).trans_le hlist
  induction hm : (compareSubmissions (receiptIndex old) (sortSubmissions list)).ids.length
    using Nat.strong_induction_on generalizing limits since t old with
  | _ m ih =>
    subst hm
    obtain ⟨limit, hlimit⟩ := hlimits 0
    have hcall := submissionChanges_eq list hlimit hold
    have hpos : 0 < min (limit + 1) maxJMAPObjects :=
      lt_min (succ_pos limit) (succ_pos 499)
    obtain ⟨page, t', hpage, hspec⟩ := submissionPage_spec user hnodup' hlist' hkeyed
      hsize hpos since (submissionState user (sortSubmissions list))
      (rememberSubmissions user (sortSubmissions list) t).2
    rw [if_neg (not_lt.mpr hlist), hpage] at hcall
    cases hmore : page.hasMoreChanges with
    | false =>
      refine ⟨1, [page], ?_, ?_, fun id hid => ?_⟩
      · simp [chase, hcall, hmore]
      · simpa using hspec.honest
      · exact ⟨page, mem_cons_self, hspec.last hmore id hid⟩
    | true =>
      obtain ⟨old', hold', hkeyed', hsize', hless, hkept⟩ := hspec.more hmore
      obtain ⟨n, pages, hpages, hhonest, hall⟩ :=
        ih _ hless (fun k => hlimits (k + 1)) hold' hkeyed' hsize' rfl
      refine ⟨n + 1, page :: pages, ?_, ?_, fun id hid => ?_⟩
      · simp [chase, hcall, hmore, hpages, Except.map]
      · exact forall_mem_cons.mpr ⟨hspec.honest, hhonest⟩
      · rcases hkept id with heq | hrep
        · obtain ⟨p, hp, hrep⟩ := hall id (heq ▸ hid)
          exact ⟨p, mem_cons_of_mem _ hp, hrep⟩
        · exact ⟨page, mem_cons_self, hrep⟩

/-- The submissions by ID. -/
def submissionObjects (list : List Submission) (id : Text) : Option Submission :=
  list.find? fun s => s.id = id

/-- The state names these submissions. -/
structure RemembersSubmissions (user : Text) (t : Snapshots) (since : Text)
    (list : List Submission) : Prop where
  unique : (list.map Submission.id).Nodup
  short : list.length ≤ 10000
  loads : ∃ old, t.load user "receipts" [] since = some old ∧ old.Perm (list.map receiptVersion)

/-- `rememberSubmissions` makes a state that names the submissions. -/
theorem remembersSubmissions_rememberSubmissions (user : Text)
    (hunique : (list.map Submission.id).Nodup) (hshort : list.length ≤ 10000) (t : Snapshots) :
    RemembersSubmissions user (rememberSubmissions user list t).2
      (rememberSubmissions user list t).1 list := by
  have hlength : ¬10000 < (list.map receiptVersion).length := by
    rw [length_map]
    exact not_lt.mpr hshort
  obtain ⟨t', ht'⟩ : ∃ t', t.save user "receipts" [] (submissionState user list)
    (list.map receiptVersion) = some t' := ⟨_, if_neg hlength⟩
  refine ⟨hunique, hshort, list.map receiptVersion, ?_, .refl _⟩
  rw [rememberSubmissions, ht', Option.getD_some, Snapshots.load_save ht', map_repair_of_valid]
  intro v hv
  obtain ⟨s, -, rfl⟩ := mem_map.mp hv
  exact valid_receiptVersion s

variable {since : Text} {t : Snapshots} {was : List Submission}

/-- The index of a state that names submissions. -/
theorem RemembersSubmissions.getElem?_receiptIndex (hunique : (was.map Submission.id).Nodup)
    (hperm : old.Perm (was.map receiptVersion)) (id : Text) :
    (receiptIndex old)[id]? = currentVersion was id := by
  have hkeys : (was.map receiptVersion).map cutKey = was.map Submission.id := by
    rw [map_map]
    exact map_congr_left fun s _ => cutKey_receiptVersion s
  have hnodup : (old.map cutKey).Nodup := (hperm.map cutKey).nodup_iff.mpr (hkeys ▸ hunique)
  refine Option.ext fun v => ?_
  rw [Jmap.getElem?_receiptIndex hnodup, hperm.mem_iff, mem_map]
  constructor
  · rintro ⟨⟨s, hs, rfl⟩, rfl⟩
    rw [cutKey_receiptVersion, currentVersion_of_mem hunique hs]
  · intro hv
    obtain ⟨s, hs, hid, rfl⟩ := (currentVersion_eq_some hunique).mp hv
    exact ⟨⟨s, hs, rfl⟩, (cutKey_receiptVersion s).trans hid⟩

/-- Submissions that differ have different versions. -/
theorem submissionObjects_eq_of_version
    (hfree : CollisionFree ((was ++ list).map Submission.marshal)) {id : Text}
    (h : currentVersion was id = currentVersion list id) :
    submissionObjects was id = submissionObjects list id := by
  unfold currentVersion at h
  unfold submissionObjects
  cases hw : was.find? fun s => s.id = id with
  | none =>
    rw [hw, Option.map_none, eq_comm, Option.map_eq_none_iff] at h
    exact h.symm
  | some s =>
    rw [hw, Option.map_some, eq_comm, Option.map_eq_some_iff] at h
    obtain ⟨s', hs', hversion⟩ := h
    have hrest := congrArg cutRest hversion
    rw [receiptVersion, receiptVersion, cutRest_version s.noNul,
      cutRest_version s'.noNul] at hrest
    have hmem : s.marshal ∈ (was ++ list).map Submission.marshal :=
      mem_map_of_mem (mem_append_left _ (mem_of_find?_eq_some hw))
    have hmem' : s'.marshal ∈ (was ++ list).map Submission.marshal :=
      mem_map_of_mem (mem_append_right _ (mem_of_find?_eq_some hs'))
    have hmarshal := hfree _ hmem' _ hmem (hexEncode_injective hrest)
    rw [hs', Submission.marshal_injective hmarshal]

theorem currentVersion_sortSubmissions (hnodup : (list.map Submission.id).Nodup) (id : Text) :
    currentVersion (sortSubmissions list) id = currentVersion list id := by
  have hperm := perm_sortSubmissions list
  by_cases hthere : ∃ s ∈ list, s.id = id
  · obtain ⟨s, hs, rfl⟩ := hthere
    rw [currentVersion_of_mem hnodup hs,
      currentVersion_of_mem ((hperm.map _).nodup_iff.mpr hnodup) (hperm.mem_iff.mpr hs)]
  · have hnone : ∀ s ∈ list, s.id ≠ id := fun s hs hid => hthere ⟨s, hs, hid⟩
    rw [currentVersion_eq_none.mpr hnone,
      currentVersion_eq_none.mpr fun s hs => hnone s (hperm.mem_iff.mp hs)]

/-- The pages lead from remembered to current submissions, exactly if these are not too many. -/
theorem submissions_converge (hwas : RemembersSubmissions user t since was)
    (hnodup : (list.map Submission.id).Nodup)
    (hfree : CollisionFree ((was ++ list).map Submission.marshal))
    (hlimits : ∀ k, IsLimit (limits k)) :
    Converges (submissionChanges user list) limits since t (submissionObjects list)
      (submissionObjects was) ↔ list.length ≤ 10000 := by
  obtain ⟨old, hold, hperm⟩ := hwas.loads
  constructor
  · rintro ⟨n, pages, hpages, -⟩
    by_contra hmany
    obtain ⟨limit, hlimit⟩ := hlimits 0
    cases n with
    | zero => cases hpages
    | succ n =>
      rw [chase, submissionChanges_eq list hlimit hold, if_pos (not_le.mp hmany)] at hpages
      cases hpages
  · intro hlist
    have hindex := RemembersSubmissions.getElem?_receiptIndex hwas.unique hperm
    have hkeyed : Keyed (receiptIndex old) := fun id v hv =>
      keyed_of_currentVersion hwas.unique ((hindex id).symm.trans hv)
    have hsize : (receiptIndex old).toList.length ≤ 10000 := by
      refine (length_toList_le fun id hid => ?_).trans
        ((length_map Submission.id).trans_le hwas.short)
      rw [hindex] at hid
      exact mem_map.mpr (exists_of_currentVersion_ne_none hid)
    obtain ⟨n, pages, hpages, hhonest, hall⟩ :=
      chase_submissions hnodup hlist hlimits hold hkeyed hsize
    simp only [hindex, currentVersion_sortSubmissions hnodup] at hhonest hall
    have hreport : ∀ id, submissionObjects was id ≠ submissionObjects list id →
        ∃ p ∈ pages, p.page.Reports id := fun id hid =>
      hall id fun h => hid (submissionObjects_eq_of_version hfree h)
    refine ⟨n, pages, hpages, Delta.refreshAll_eq ?_ ?_, hreport⟩
    · intro p hp id hid
      obtain ⟨page, hpage, rfl⟩ := mem_map.mp hp
      exact Option.map_eq_none_iff.mp (hhonest page hpage id hid)
    · intro id hid
      obtain ⟨p, hp, hrep⟩ := hreport id hid
      exact ⟨p.page, mem_map_of_mem hp, hrep⟩

end Submissions

/-! ### Threads -/

/-- A thread: its ID, and the IDs of its messages. -/
abbrev Thread := Text × List Text

variable (C : Contents)

/-- A message and its thread. -/
def threadOf (m : Message) : Except String (Message × Text) :=
  if m.threadID ≠ [] then .ok (m, m.threadID)
  else if C.fetches m.id then .ok (m, C.threadID m.id)
  else .error "serverFail"

/-- The order in a thread: earlier messages first, and then by ID. -/
def earlier (a b : Message) : Bool := a.date < b.date || (a.date = b.date && a.id ≤ b.id)

/-- The messages of each thread. -/
def groupThreads (entries : List (Message × Text)) : List Thread :=
  (sortTexts (entries.map Prod.snd).dedup).map fun tid =>
    (tid, (((entries.filter fun e => e.2 = tid).map Prod.fst).insertionSort fun a b =>
      earlier a b = true).map Message.id)

/-- The threads of `threadSnapshot`. -/
def threadsOf (messages : List Message) : Except String (List Thread) :=
  (messages.mapM (threadOf C)).map groupThreads

def threadState (user : Text) (threads : List Thread) : Text :=
  fingerprint "t1:" (user ++ 0 :: (Value.obj (threads.map fun p => (p.1, strings p.2))).print)

def threadVersion (p : Thread) : Text := version p.1 (strings p.2).print

/-- `threadSnapshot`. -/
def threadSnapshot (user : Text) (messages : List Message) (t : Snapshots) :
    Except String (List Thread × Text × Snapshots) :=
  (threadsOf C messages).map fun threads =>
    (threads, threadState user threads, (t.save user "Thread" [] (threadState user threads)
      (sortTexts (threads.map threadVersion))).getD t)

/-- The versions by thread. -/
def threadIndex (versions : List Text) : Index :=
  insertAll (versions.map fun v => (cutKey v, cutRest v)) ∅

/-- The comparison of `threadChanges`. -/
def compareThreads (before after : Index) : Changes where
  destroyed := sortTexts (before.keys.filter fun tid => after[tid]? = none)
  created := sortTexts (after.keys.filter fun tid => before[tid]? = none)
  updated := sortTexts (after.keys.filter fun tid =>
    before[tid]? ≠ none && before[tid]? ≠ after[tid]?)

/-- `threadChanges`. -/
def threadChanges (user : Text) (messages : List Message) (args : Args) (t : Snapshots) :
    Except String ChangesPage × Snapshots :=
  if !args.only ["accountId", "sinceState", "maxChanges"] then (.error "invalidArguments", t)
  else match args.get "sinceState", numericLimit args "maxChanges" maxJMAPObjects with
  | .str since, some (limit + 1) =>
    match t.load user "Thread" [] since with
    | none => (.error "cannotCalculateChanges", t)
    | some old =>
      match threadSnapshot C user messages t with
      | .error _ => (.error "serverFail", t)
      | .ok (_, state, t) =>
        match t.load user "Thread" [] state with
        | none => (.error "cannotCalculateChanges", t)
        | some current =>
          let changes := compareThreads (threadIndex old) (threadIndex current)
          if limit + 1 < changes.ids.length then (.error "cannotCalculateChanges", t)
          else (.ok (changes.answer since state false), t)
  | _, _ => (.error "invalidArguments", t)

section Compare

variable {before after : Index} {tid : Text}

theorem mem_destroyed_compareThreads : tid ∈ (compareThreads before after).destroyed ↔
    before[tid]? ≠ none ∧ after[tid]? = none := by
  simp only [compareThreads, (perm_sortTexts _).mem_iff, mem_filter, mem_keys_iff,
    decide_eq_true_eq]

theorem mem_created_compareThreads : tid ∈ (compareThreads before after).created ↔
    after[tid]? ≠ none ∧ before[tid]? = none := by
  simp only [compareThreads, (perm_sortTexts _).mem_iff, mem_filter, mem_keys_iff,
    decide_eq_true_eq]

theorem mem_updated_compareThreads : tid ∈ (compareThreads before after).updated ↔
    after[tid]? ≠ none ∧ before[tid]? ≠ none ∧ before[tid]? ≠ after[tid]? := by
  simp only [compareThreads, (perm_sortTexts _).mem_iff, mem_filter, mem_keys_iff,
    decide_eq_true_eq, Bool.and_eq_true]

theorem mem_ids_compareThreads : tid ∈ (compareThreads before after).ids ↔
    before[tid]? ≠ after[tid]? := by
  rw [Changes.mem_ids, mem_append, mem_destroyed_compareThreads, mem_created_compareThreads,
    mem_updated_compareThreads]
  grind

theorem nodup_ids_compareThreads (before after : Index) :
    (compareThreads before after).ids.Nodup := by
  have hsorted (m : Index) (p : Text → Bool) : (sortTexts (m.keys.filter p)).Nodup :=
    (perm_sortTexts _).nodup_iff.mpr (Std.ExtTreeMap.nodup_keys.filter p)
  refine .append (hsorted _ _) (.append (hsorted _ _) (hsorted _ _) ?_) ?_
  · intro tid hc hu
    exact (mem_updated_compareThreads.mp hu).2.1 (mem_created_compareThreads.mp hc).2
  · intro tid hd hcu
    have hnone := (mem_destroyed_compareThreads.mp hd).2
    rcases mem_append.mp hcu with hc | hu
    · exact (mem_created_compareThreads.mp hc).1 hnone
    · exact (mem_updated_compareThreads.mp hu).1 hnone

end Compare

/-- The messages of a thread. -/
def threadObjects (threads : List Thread) (tid : Text) : Option (List Text) :=
  (threads.find? fun p => p.1 = tid).map Prod.snd

/-- The threads on which two states differ. -/
def differing (was threads : List Thread) : List Text :=
  (was.map Prod.fst ++ threads.map Prod.fst).dedup.filter fun tid =>
    threadObjects was tid ≠ threadObjects threads tid

/-- The IDs are UTF-8, and that of the thread has no NUL: it is a digest, or the ID of a
message. -/
def Thread.Sound (p : Thread) : Prop := 0 ∉ p.1 ∧ Valid p.1 ∧ ∀ id ∈ p.2, Valid id

/-- The state names these threads. -/
structure RemembersThreads (user : Text) (t : Snapshots) (since : Text) (threads : List Thread) :
    Prop where
  unique : (threads.map Prod.fst).Nodup
  sound : ∀ p ∈ threads, Thread.Sound p
  loads : t.load user "Thread" [] since = some (sortTexts (threads.map threadVersion))

section Threads

variable {user : Text} {t : Snapshots} {since : Text} {was threads : List Thread}
  {tid : Text} {C : Contents} {messages : List Message} {limit : ℕ}

theorem mem_of_threadObjects {ids : List Text} (h : threadObjects threads tid = some ids) :
    (tid, ids) ∈ threads := by
  obtain ⟨⟨tid', _⟩, hp, rfl⟩ := Option.map_eq_some_iff.mp h
  have hid : tid' = tid := by simpa using find?_some hp
  subst hid
  exact mem_of_find?_eq_some hp

theorem threadObjects_of_mem (hunique : (threads.map Prod.fst).Nodup) {p : Thread}
    (hp : p ∈ threads) : threadObjects threads p.1 = some p.2 := by
  rw [threadObjects, (find?_key_eq_some hunique).mpr ⟨hp, rfl⟩, Option.map_some]

/-- The index of the versions of threads. -/
theorem getElem?_threadIndex (hunique : (threads.map Prod.fst).Nodup)
    (hsound : ∀ p ∈ threads, Thread.Sound p) (tid : Text) :
    (threadIndex (sortTexts (threads.map threadVersion)))[tid]? =
      (threadObjects threads tid).map fun ids => (strings ids).print := by
  have hperm := perm_sortTexts (threads.map threadVersion)
  have hkeys : (threads.map threadVersion).map cutKey = threads.map Prod.fst := by
    rw [map_map]
    exact map_congr_left fun p hp => cutKey_version (hsound p hp).1 _
  refine Option.ext fun v => ?_
  rw [threadIndex, getElem?_insertAll _ ((hperm.map cutKey).nodup_iff.mpr (hkeys ▸ hunique)),
    Option.map_eq_some_iff]
  simp only [hperm.mem_iff, mem_map, exists_exists_and_eq_and, Std.ExtTreeMap.getElem?_empty,
    reduceCtorEq, and_false, or_false]
  constructor
  · rintro ⟨p, hp, hkey, rfl⟩
    rw [threadVersion, cutKey_version (hsound p hp).1] at hkey
    rw [threadVersion, cutRest_version (hsound p hp).1, ← hkey]
    exact ⟨p.2, threadObjects_of_mem hunique hp, rfl⟩
  · rintro ⟨ids, hids, rfl⟩
    have hmem := mem_of_threadObjects hids
    exact ⟨(tid, ids), hmem, cutKey_version (hsound _ hmem).1 _,
      cutRest_version (hsound _ hmem).1 _⟩

/-- Threads with the same texts are the same. -/
theorem threadObjects_eq_iff (hwas : ∀ p ∈ was, Thread.Sound p)
    (hthreads : ∀ p ∈ threads, Thread.Sound p) (tid : Text) :
    (threadObjects was tid).map (fun ids => (strings ids).print) =
        (threadObjects threads tid).map (fun ids => (strings ids).print) ↔
      threadObjects was tid = threadObjects threads tid := by
  refine ⟨fun h => ?_, fun h => h ▸ rfl⟩
  cases hw : threadObjects was tid with
  | none =>
    rw [hw, Option.map_none, eq_comm, Option.map_eq_none_iff] at h
    exact h.symm
  | some ids =>
    rw [hw, Option.map_some, eq_comm, Option.map_eq_some_iff] at h
    obtain ⟨ids', hids', hprint⟩ := h
    have hread := congrArg unmarshalStrings hprint
    rw [unmarshalStrings_print, unmarshalStrings_print,
      map_repair_of_valid (hwas _ (mem_of_threadObjects hw)).2.2,
      map_repair_of_valid (hthreads _ (mem_of_threadObjects hids')).2.2] at hread
    rw [hids', hread]

theorem unique_threadsOf (h : threadsOf C messages = .ok threads) :
    (threads.map Prod.fst).Nodup := by
  unfold threadsOf at h
  cases hentries : messages.mapM (threadOf C) with
  | error err =>
    rw [hentries] at h
    cases h
  | ok entries =>
    rw [hentries] at h
    cases h
    have htids : (groupThreads entries).map Prod.fst =
        sortTexts (entries.map Prod.snd).dedup := by
      rw [groupThreads, map_map]
      exact map_id _
    rw [htids, (perm_sortTexts _).nodup_iff]
    exact nodup_dedup _

/-- What `threadChanges` finds. -/
def threadDifferences (was threads : List Thread) : Changes :=
  compareThreads (threadIndex (sortTexts (was.map threadVersion)))
    (threadIndex (sortTexts (threads.map threadVersion)))

theorem mem_ids_threadDifferences (hwas : (was.map Prod.fst).Nodup)
    (hwas' : ∀ p ∈ was, Thread.Sound p) (hthreads : (threads.map Prod.fst).Nodup)
    (hthreads' : ∀ p ∈ threads, Thread.Sound p) :
    tid ∈ (threadDifferences was threads).ids ↔
      threadObjects was tid ≠ threadObjects threads tid := by
  rw [threadDifferences, mem_ids_compareThreads, getElem?_threadIndex hwas hwas',
    getElem?_threadIndex hthreads hthreads', ne_eq, threadObjects_eq_iff hwas' hthreads']

/-- The changes are the threads that differ. -/
theorem length_ids_eq_differing (hwas : (was.map Prod.fst).Nodup)
    (hwas' : ∀ p ∈ was, Thread.Sound p) (hthreads : (threads.map Prod.fst).Nodup)
    (hthreads' : ∀ p ∈ threads, Thread.Sound p) :
    (threadDifferences was threads).ids.length =
      (differing was threads).length := by
  have hnodup : (threadDifferences was threads).ids.Nodup := nodup_ids_compareThreads _ _
  refine ((perm_ext_iff_of_nodup hnodup
    ((nodup_dedup _).filter _)).mpr fun tid => ?_).length_eq
  rw [mem_ids_threadDifferences hwas hwas' hthreads hthreads', mem_filter, mem_dedup,
    decide_eq_true_eq]
  refine ⟨fun hne => ⟨?_, hne⟩, And.right⟩
  have hkey {l : List Thread} {ids : List Text} (h : threadObjects l tid = some ids) :
      tid ∈ l.map Prod.fst := mem_map.mpr ⟨_, mem_of_threadObjects h, rfl⟩
  rw [mem_append]
  cases hw : threadObjects was tid with
  | some ids => exact .inl (hkey hw)
  | none =>
    obtain ⟨ids, hids⟩ := Option.ne_none_iff_exists'.mp fun hnone => hne (hw.trans hnone.symm)
    exact .inr (hkey hids)

/-- A call with a remembered state. -/
theorem threadChanges_eq (hwas : RemembersThreads user t since was)
    (hthreads : threadsOf C messages = .ok threads) (hsound : ∀ p ∈ threads, Thread.Sound p)
    (hfresh : 10000 < threads.length → t.load user "Thread" [] (threadState user threads) = none)
    {maxChanges : Value}
    (hlimit : numericLimit (changesArgs [] maxChanges) "maxChanges" maxJMAPObjects =
      some (limit + 1)) :
    (threadChanges C user messages (changesArgs since maxChanges) t).1 =
      if threads.length ≤ 10000 ∧ (differing was threads).length ≤ limit + 1 then
        .ok ((threadDifferences was threads).answer since
          (threadState user threads) false)
      else .error "cannotCalculateChanges" := by
  have honly : (changesArgs since maxChanges).only ["accountId", "sinceState", "maxChanges"] =
    true := rfl
  have hsince : (changesArgs since maxChanges).get "sinceState" = .str since := rfl
  rw [threadChanges, honly, hsince, numericLimit_changesArgs, hlimit]
  simp only [Bool.not_true, Bool.false_eq_true, if_false, hwas.loads, threadSnapshot, hthreads,
    Except.map]
  rcases lt_or_ge 10000 threads.length with hmany | hfew
  · have hsave : t.save user "Thread" [] (threadState user threads)
        (sortTexts (threads.map threadVersion)) = none := by
      rw [Snapshots.save, if_pos]
      rwa [(perm_sortTexts _).length_eq, length_map]
    rw [hsave, Option.getD_none, hfresh hmany, if_neg fun h => not_lt.mpr h.1 hmany]
  · obtain ⟨t', hsave⟩ : ∃ t', t.save user "Thread" [] (threadState user threads)
        (sortTexts (threads.map threadVersion)) = some t' := by
      refine ⟨_, if_neg ?_⟩
      rw [(perm_sortTexts _).length_eq, length_map]
      exact not_lt.mpr hfew
    have hvalid : ∀ v ∈ sortTexts (threads.map threadVersion), Valid v := by
      intro v hv
      obtain ⟨p, hp, rfl⟩ := mem_map.mp ((perm_sortTexts _).mem_iff.mp hv)
      exact valid_version (hsound p hp).2.1 (valid_print_strings _)
    have hlength :=
      length_ids_eq_differing hwas.unique hwas.sound (unique_threadsOf hthreads) hsound
    simp only [hsave, Option.getD_some, Snapshots.load_save hsave, map_repair_of_valid hvalid,
      hfew, true_and]
    rw [← threadDifferences, hlength]
    rcases lt_or_ge (limit + 1) (differing was threads).length with hover | hfits
    · rw [if_pos hover, if_neg (not_le.mpr hover)]
    · rw [if_neg (not_lt.mpr hfits), if_pos hfits]

/-- One page leads from remembered to current threads, or there is none. -/
theorem threads_converge (hwas : RemembersThreads user t since was)
    (hthreads : threadsOf C messages = .ok threads) (hsound : ∀ p ∈ threads, Thread.Sound p)
    (hfresh : 10000 < threads.length → t.load user "Thread" [] (threadState user threads) = none)
    {limits : ℕ → Value}
    (hlimit : numericLimit (changesArgs [] (limits 0)) "maxChanges" maxJMAPObjects =
      some (limit + 1)) :
    Converges (threadChanges C user messages) limits since t (threadObjects threads)
        (threadObjects was) ↔
      threads.length ≤ 10000 ∧ (differing was threads).length ≤ limit + 1 := by
  have hcall := threadChanges_eq hwas hthreads hsound hfresh hlimit
  obtain ⟨answer, t', hanswer⟩ : ∃ answer t', threadChanges C user messages
    (changesArgs since (limits 0)) t = (answer, t') := ⟨_, _, rfl⟩
  rw [hanswer] at hcall
  constructor
  · rintro ⟨n, pages, hpages, -⟩
    by_contra hnot
    rw [if_neg hnot] at hcall
    obtain rfl : answer = .error "cannotCalculateChanges" := hcall
    cases n with
    | zero => cases hpages
    | succ n =>
      rw [chase, hanswer] at hpages
      cases hpages
  · intro hfits
    rw [if_pos hfits] at hcall
    subst hcall
    have hreport (tid : Text) (hne : threadObjects was tid ≠ threadObjects threads tid) :=
      (mem_ids_threadDifferences hwas.unique hwas.sound (unique_threadsOf hthreads) hsound).mpr hne
    refine ⟨1, [(threadDifferences was threads).answer since (threadState user threads) false], ?_,
      Delta.refreshAll_eq ?_ ?_, ?_⟩
    · rw [chase, hanswer]
      rfl
    · intro p hp tid htid
      rw [map_singleton, mem_singleton] at hp
      subst hp
      have hgone := (mem_destroyed_compareThreads.mp htid).2
      rwa [getElem?_threadIndex (unique_threadsOf hthreads) hsound,
        Option.map_eq_none_iff] at hgone
    · exact fun tid hne => ⟨_, mem_singleton_self _, Changes.mem_ids.mp (hreport tid hne)⟩
    · exact fun tid hne => ⟨_, mem_singleton_self _, Changes.mem_ids.mp (hreport tid hne)⟩

end Threads

/-- A submission that is sent, or not yet. -/
def sampleSubmission (id undoStatus : String) (h : 0 ∉ bytes id) : Submission where
  id := bytes id
  emailID := bytes "e"
  identityID := bytes "i"
  threadID := bytes "t"
  sendAt := bytes "2024-01-01T00:00:00Z"
  undoStatus := bytes undoStatus
  envelope := .obj []
  deliveryStatus := .null
  noNul := h
  texts := by
    have hvalid (s : String) : Valid (bytes s) := (valid_iff _).mpr ⟨_, rfl⟩
    simp [hvalid]
  values := by simp [Value.Sound, SoundMembers, Value.repaired, repairedMembers]

/-- A pending submission. -/
def pendingSubmission : Submission := sampleSubmission "s" "pending" (by decide +kernel)

/-- It is sent, and there is another one. -/
def laterSubmissions : List Submission :=
  [sampleSubmission "s" "final" (by decide +kernel),
    sampleSubmission "r" "pending" (by decide +kernel)]

theorem remembers_later :
    RemembersSubmissions [] (rememberSubmissions [] laterSubmissions []).2
      (rememberSubmissions [] laterSubmissions []).1 laterSubmissions :=
  remembersSubmissions_rememberSubmissions _ (by decide +kernel) (by decide) _

/-- The state of a user without mail and with one submission. -/
def rememberedStates : Snapshots :=
  ((rememberSubmissions (bytes "u") [pendingSubmission] []).2.save (bytes "u") "Thread" []
    (threadState (bytes "u") []) []).getD []

/-- Two messages, in threads of their own. -/
def twoMessages : List Message :=
  [⟨bytes "a", bytes "inbox", [], bytes "a", 1⟩, ⟨bytes "b", bytes "inbox", [], bytes "b", 2⟩]

def twoThreads : List Thread := [(bytes "a", [bytes "a"]), (bytes "b", [bytes "b"])]

theorem remembersThreads_rememberedStates :
    RemembersThreads (bytes "u") rememberedStates (threadState (bytes "u") []) [] :=
  ⟨nodup_nil, nofun, by decide +kernel⟩

theorem sound_twoThreads : ∀ p ∈ twoThreads, Thread.Sound p := by
  have hvalid (s : String) : Valid (bytes s) := (valid_iff _).mpr ⟨_, rfl⟩
  have hsound (s : String) (h : 0 ∉ bytes s) : Thread.Sound (bytes s, [bytes s]) :=
    ⟨h, hvalid s, fun id hid => mem_singleton.mp hid ▸ hvalid s⟩
  exact forall_mem_cons.mpr ⟨hsound "a" (by decide +kernel),
    forall_mem_singleton.mpr (hsound "b" (by decide +kernel))⟩

theorem collisionFree_submissions :
    CollisionFree (([pendingSubmission] ++ laterSubmissions).map Submission.marshal) := by
  unfold CollisionFree
  decide +kernel

end EmailService.Jmap
