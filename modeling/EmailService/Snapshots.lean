/-
EmailService/Snapshots.lean

Remembered states of JMAP objects (internal/storage/jmap_snapshots.go), and what the
methods that use them share (internal/jmap/query_sync.go): arguments, limits and
the tokens that name a state.

A snapshot is stored as JSON under a token, and a token is a digest of what it names.
The table keeps the newest 64 snapshots of a user and kind.  What a token loads is
therefore what was stored under it last (`Snapshots.mem_save`), unless it is gone.
-/
import EmailService.JsonStruct
import EmailService.Sha256

namespace EmailService.Jmap

open Json Utf8 List Sha256

/-- A Go string. -/
abbrev Text := List UInt8

/-! ### Arguments -/

/-- The arguments of a method, as decoded from JSON.  Numbers have the text that Go writes for
them. -/
abbrev Args := List (String × Value)

/-- `args[key]`; a missing argument is nil. -/
def Args.get (args : Args) (key : String) : Value := (args.lookup key).getD .null

/-- Every argument is one of these. -/
def Args.only (args : Args) (keys : List String) : Bool := args.all fun arg => keys.contains arg.1

def maxJMAPObjects : ℕ := 500

/-- `numericLimit`. -/
def numericLimit (args : Args) (key : String) (defaultValue : ℕ) : Option ℕ :=
  match args.get key with
  | .null => some defaultValue
  | .num token =>
    match parseInt token with
    | some n => if n < 0 ∨ 2 ^ 31 < n then none else some n.toNat
    | none => none
  | _ => none

/-- A token: a tag and a digest. -/
def fingerprint (tag : String) (text : Text) : Text :=
  bytes tag ++ hexEncode (sum256 text)

/-- No two of these texts have the same digest. -/
def CollisionFree (texts : List Text) : Prop :=
  ∀ x ∈ texts, ∀ y ∈ texts, sum256 x = sum256 y → x = y

theorem CollisionFree.eq {texts : List Text} (h : CollisionFree texts) {tag : String} {x y : Text}
    (hx : x ∈ texts) (hy : y ∈ texts) (heq : fingerprint tag x = fingerprint tag y) : x = y :=
  h x hx y hy (hexEncode_injective (append_cancel_left heq))

/-! ### The table -/

/-- A row of `jmap_snapshots`. -/
structure Snapshot where
  user : Text
  kind : String
  signature : Text
  token : Text
  ids : Text
  deriving DecidableEq

/-- The table, in the order of `seq`. -/
abbrev Snapshots := List Snapshot

/-- The row with this key. -/
def Snapshot.hasKey (user : Text) (kind : String) (signature token : Text) (s : Snapshot) : Bool :=
  s.user = user && s.kind = kind && s.signature = signature && s.token = token

/-- Drop the elements that satisfy `p`, except the last `n` of them. -/
def keepLast {α : Type} (p : α → Bool) (n : ℕ) : List α → List α
  | [] => []
  | a :: l => if p a && n ≤ l.countP p then keepLast p n l else a :: keepLast p n l

variable {α : Type}

theorem keepLast_sublist (p : α → Bool) (n : ℕ) (l : List α) : (keepLast p n l).Sublist l := by
  induction l with
  | nil => exact .slnil
  | cons a l ih =>
    rw [keepLast]
    split
    · exact ih.cons a
    · exact ih.cons_cons a

/-- The last element stays. -/
theorem keepLast_concat (p : α → Bool) {n : ℕ} (hn : 0 < n) (l : List α) (a : α) :
    ∃ l' : List α, l'.Sublist l ∧ keepLast p n (l ++ [a]) = l' ++ [a] := by
  induction l with
  | nil => exact ⟨[], .slnil, by simp [keepLast, hn.ne']⟩
  | cons b l ih =>
    obtain ⟨l', hsub, heq⟩ := ih
    rw [cons_append, keepLast, heq]
    split
    · exact ⟨l', hsub.cons b, rfl⟩
    · exact ⟨b :: l', hsub.cons_cons b, rfl⟩

/-- At most `n` elements that satisfy `p` stay. -/
theorem countP_keepLast (p : α → Bool) (n : ℕ) (l : List α) : (keepLast p n l).countP p ≤ n := by
  induction l with
  | nil => exact n.zero_le
  | cons a l ih =>
    have hle := (keepLast_sublist p n l).countP_le (p := p)
    rw [keepLast]
    split <;> grind

namespace Snapshots

variable (user : Text) (kind : String) (signature token : Text)

/-- `SaveSnapshot`; nothing if there are too many IDs. -/
def save (ids : List Text) (t : Snapshots) : Option Snapshots :=
  if 10000 < ids.length then none
  else
    let row : Snapshot := ⟨user, kind, signature, token, (strings ids).print⟩
    let t := t.filter (fun s => !s.hasKey user kind signature token) ++ [row]
    some (keepLast (fun s => s.user = user && s.kind = kind) 64 t)

/-- `LoadSnapshot`. -/
def load (t : Snapshots) : Option (List Text) :=
  (t.find? (Snapshot.hasKey user kind signature token)).bind fun s => unmarshalStrings s.ids

variable {user : Text} {kind : String} {signature token : Text} {ids : List Text}
  {t t' : Snapshots}

/-- The rows after a save are rows from before and the new one. -/
theorem mem_save (h : save user kind signature token ids t = some t') {s : Snapshot}
    (hs : s ∈ t') : s ∈ t ∨ s = ⟨user, kind, signature, token, (strings ids).print⟩ := by
  rw [save] at h
  split at h
  · cases h
  · cases h
    rcases mem_append.mp ((keepLast_sublist _ _ _).subset hs) with hs | hs
    · exact .inl (mem_filter.mp hs).1
    · exact .inr (mem_singleton.mp hs)

/-- What was saved last is loaded, with its texts repaired. -/
theorem load_save (h : save user kind signature token ids t = some t') :
    load user kind signature token t' = some (ids.map repair) := by
  rw [save] at h
  split at h
  · cases h
  · cases h
    obtain ⟨l', hsub, heq⟩ := keepLast_concat (fun s : Snapshot => s.user = user && s.kind = kind)
      (Nat.succ_pos 63) (t.filter fun s => !s.hasKey user kind signature token)
      ⟨user, kind, signature, token, (strings ids).print⟩
    have hother : l'.find? (Snapshot.hasKey user kind signature token) = none := by
      refine find?_eq_none.mpr fun s hs hkey => ?_
      have hnot := (mem_filter.mp (hsub.subset hs)).2
      simp [hkey] at hnot
    rw [load, heq, find?_append, hother]
    simp [Snapshot.hasKey, unmarshalStrings_print]

/-- What is loaded is in the table. -/
theorem mem_of_load (h : load user kind signature token t = some ids) :
    ∃ s ∈ t, s.user = user ∧ s.kind = kind ∧ s.signature = signature ∧ s.token = token ∧
      unmarshalStrings s.ids = some ids := by
  obtain ⟨s, hs, hids⟩ := Option.bind_eq_some_iff.mp h
  have hkey := find?_some hs
  simp only [Snapshot.hasKey, Bool.and_eq_true, decide_eq_true_eq] at hkey
  exact ⟨s, mem_of_find?_eq_some hs, hkey.1.1.1, hkey.1.1.2, hkey.1.2, hkey.2, hids⟩

/-- Each user has at most 64 rows of a kind. -/
def Bounded (t : Snapshots) : Prop := ∀ u k, t.countP (fun s => s.user = u && s.kind = k) ≤ 64

theorem Bounded.save (h : Bounded t) : Bounded ((save user kind signature token ids t).getD t) := by
  intro u k
  rw [Snapshots.save]
  split
  · exact h u k
  · by_cases hkey : u = user ∧ k = kind
    · obtain ⟨rfl, rfl⟩ := hkey
      exact countP_keepLast ..
    · -- the new row does not count
      refine ((keepLast_sublist ..).countP_le.trans ?_).trans (h u k)
      rw [countP_append, countP_singleton, if_neg (by grind)]
      exact filter_sublist.countP_le

/-- **However snapshots are saved, the table stays bounded.** -/
theorem bounded_saves (calls : List (Text × String × Text × Text × List Text)) :
    Bounded (calls.foldl (fun t (u, k, s, token, ids) => (save u k s token ids t).getD t) []) :=
  foldlRecOn calls _ (fun _ _ => zero_le) fun _ h _ _ => h.save

end Snapshots

end EmailService.Jmap
