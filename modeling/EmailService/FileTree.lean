/-
FileTree.lean

A file tree with symbolic links, and what a path leads to in it.

`Tree.walk` goes along a path and follows the links it meets, at most so many of
them.  A missing entry ends a lookup, and a creation goes on as if the entry were
there: `walk false` finds what exists, and `walk true` the place at which a path
is opened or created.

A walk that has come to a directory is a walk from there on, with the links it
has used up taken off its limit (`walk_append`).  Two walks that both arrive
arrive at the same place (`walk_unique`).
-/
import EmailService.GoPath

namespace FileTree

open GoPath List Option Nat

inductive Node
  | dir
  | file
  | link (target : List UInt8)
  deriving DecidableEq

/-- What is at each place, a place being the names on the way from the root. -/
structure Tree where
  node : List Name → Option Node
  root : node [] = some .dir
  parent : ∀ dir name, node (dir ++ [name]) ≠ none → node dir = some .dir
  names : ∀ place, node place ≠ none → ∀ name ∈ place, Proper name

inductive Errno
  | noent
  | notdir
  | loop
  deriving DecidableEq

abbrev Lookup := Except Errno (List Name)

namespace Tree

theorem mem_of_lookup {entries : List (List Name × Node)} {place : List Name} {node : Node}
    (h : entries.lookup place = some node) : (place, node) ∈ entries := by
  obtain ⟨before, after, rfl, -⟩ := lookup_eq_some_iff.mp h
  exact mem_append_right _ mem_cons_self

/-- The tree of a list of entries below its root. -/
def ofEntries (entries : List (List Name × Node))
    (h : ∀ e ∈ entries, (∀ name ∈ e.1, Proper name) ∧
      (e.1.dropLast = [] ∨ entries.lookup e.1.dropLast = some .dir)) : Tree where
  node place := if place = [] then some .dir else entries.lookup place
  root := if_pos rfl
  parent dir name hne := by
    rw [if_neg (by simp)] at hne
    obtain ⟨node, hnode⟩ := ne_none_iff_exists'.mp hne
    have hdir := (h _ (mem_of_lookup hnode)).2
    rw [dropLast_concat] at hdir
    split
    · rfl
    · next hroot => exact hdir.resolve_left hroot
  names place hne := by
    split at hne
    · next hroot => exact hroot ▸ nofun
    · obtain ⟨node, hnode⟩ := ne_none_iff_exists'.mp hne
      exact (h _ (mem_of_lookup hnode)).1

variable (t : Tree) (create : Bool)

/-- Along the parts of a path, with `follow` for the rest of it behind a link. -/
def walkWith (follow : List Name → List Name → Lookup) : List Name → List Name → Lookup
  | dir, [] => .ok dir
  | dir, part :: rest =>
    if telling part = false then walkWith follow dir rest
    else if part = dotdot then walkWith follow dir.dropLast rest
    else
      match t.node (dir ++ [part]) with
      | none => if create then walkWith follow (dir ++ [part]) rest else .error .noent
      | some .dir => walkWith follow (dir ++ [part]) rest
      | some .file => if rest = [] then .ok (dir ++ [part]) else .error .notdir
      | some (.link target) =>
        follow (if (ofText target).rooted then [] else dir) ((ofText target).parts ++ rest)

/-- From a directory along the parts of a path, over at most so many links. -/
def walk : ℕ → List Name → List Name → Lookup
  | 0 => t.walkWith create fun _ _ => .error .loop
  | links + 1 => t.walkWith create (walk links)

variable {t : Tree} {create : Bool} {links : ℕ} {dir place : List Name} {part : Name}
  {rest : List Name}

/-! ### One part of a path -/

/-- Behind a link. -/
def beyond (t : Tree) (create : Bool) : ℕ → List Name → List Name → Lookup
  | 0 => fun _ _ => .error .loop
  | links + 1 => t.walk create links

theorem walk_eq (t : Tree) (create : Bool) (links : ℕ) :
    t.walk create links = t.walkWith create (t.beyond create links) := by
  cases links <;> rfl

@[simp] theorem walk_nil : t.walk create links dir [] = .ok dir := by
  rw [walk_eq, walkWith]

theorem walk_silent (h : telling part = false) :
    t.walk create links dir (part :: rest) = t.walk create links dir rest := by
  rw [walk_eq, walkWith, if_pos h]

theorem walk_up : t.walk create links dir (dotdot :: rest) =
    t.walk create links dir.dropLast rest := by
  rw [walk_eq, walkWith, if_neg (by decide), if_pos rfl]

section Named

variable (htell : telling part = true) (hup : part ≠ dotdot)

include htell hup

theorem walk_missing (h : t.node (dir ++ [part]) = none) :
    t.walk create links dir (part :: rest) =
      if create then t.walk create links (dir ++ [part]) rest else .error .noent := by
  rw [walk_eq, walkWith, if_neg (by simp [htell]), if_neg hup, h]

theorem walk_dir (h : t.node (dir ++ [part]) = some .dir) :
    t.walk create links dir (part :: rest) = t.walk create links (dir ++ [part]) rest := by
  rw [walk_eq, walkWith, if_neg (by simp [htell]), if_neg hup, h]

theorem walk_file (h : t.node (dir ++ [part]) = some .file) :
    t.walk create links dir (part :: rest) =
      if rest = [] then .ok (dir ++ [part]) else .error .notdir := by
  rw [walk_eq, walkWith, if_neg (by simp [htell]), if_neg hup, h]

theorem walk_link {target : List UInt8} (h : t.node (dir ++ [part]) = some (.link target)) :
    t.walk create links dir (part :: rest) =
      t.beyond create links (if (ofText target).rooted then [] else dir)
        ((ofText target).parts ++ rest) := by
  rw [walk_eq, walkWith, if_neg (by simp [htell]), if_neg hup, h]

end Named

/-! ### Walks that arrive -/

/-- The walk arrives at `place`. -/
inductive Arrives (t : Tree) (create : Bool) : ℕ → List Name → List Name → List Name → Prop
  | here {links : ℕ} {dir : List Name} : Arrives t create links dir [] dir
  | silent {links : ℕ} {dir rest place : List Name} {part : Name} (h : telling part = false) :
      Arrives t create links dir rest place → Arrives t create links dir (part :: rest) place
  | up {links : ℕ} {dir rest place : List Name} :
      Arrives t create links dir.dropLast rest place →
      Arrives t create links dir (dotdot :: rest) place
  | missing {links : ℕ} {dir rest place : List Name} {part : Name} (htell : telling part = true)
      (hup : part ≠ dotdot) (h : t.node (dir ++ [part]) = none) (hcreate : create = true) :
      Arrives t create links (dir ++ [part]) rest place →
      Arrives t create links dir (part :: rest) place
  | dir {links : ℕ} {dir rest place : List Name} {part : Name} (htell : telling part = true)
      (hup : part ≠ dotdot) (h : t.node (dir ++ [part]) = some .dir) :
      Arrives t create links (dir ++ [part]) rest place →
      Arrives t create links dir (part :: rest) place
  | file {links : ℕ} {dir : List Name} {part : Name} (htell : telling part = true)
      (hup : part ≠ dotdot) (h : t.node (dir ++ [part]) = some .file) :
      Arrives t create links dir [part] (dir ++ [part])
  | link {links : ℕ} {dir rest place : List Name} {part : Name} {target : List UInt8}
      (htell : telling part = true) (hup : part ≠ dotdot)
      (h : t.node (dir ++ [part]) = some (.link target)) :
      Arrives t create links (if (ofText target).rooted then [] else dir)
        ((ofText target).parts ++ rest) place →
      Arrives t create (links + 1) dir (part :: rest) place

variable {parts : List Name} {name : Name}

theorem arrives_of_walk (h : t.walk create links dir parts = .ok place) :
    Arrives t create links dir parts place := by
  induction links generalizing dir parts with
  | zero => exact arrives_of_beyond nofun h
  | succ links ih => exact arrives_of_beyond (fun h => ⟨links, rfl, ih h⟩) h
where
  /-- The induction on the parts, given the one on the links. -/
  arrives_of_beyond {links : ℕ} {dir parts : List Name}
      (hbeyond : ∀ {dir parts}, t.beyond create links dir parts = .ok place →
        ∃ n, links = n + 1 ∧ Arrives t create n dir parts place)
      (h : t.walk create links dir parts = .ok place) :
      Arrives t create links dir parts place := by
    induction parts generalizing dir with
    | nil =>
      cases Except.ok.inj (walk_nil.symm.trans h)
      exact .here
    | cons part rest ih =>
      cases htell : telling part with
      | false => exact .silent htell (ih (walk_silent htell ▸ h))
      | true =>
        by_cases hup : part = dotdot
        · subst hup
          exact .up (ih (walk_up ▸ h))
        cases hnode : t.node (dir ++ [part]) with
        | none =>
          rw [walk_missing htell hup hnode] at h
          split at h
          · next hcreate => exact .missing htell hup hnode hcreate (ih h)
          · cases h
        | some node =>
          cases node with
          | dir => exact .dir htell hup hnode (ih (walk_dir htell hup hnode ▸ h))
          | file =>
            rw [walk_file htell hup hnode] at h
            split at h
            · next hrest =>
              cases h
              subst hrest
              exact .file htell hup hnode
            · cases h
          | link target =>
            rw [walk_link htell hup hnode] at h
            obtain ⟨n, rfl, harrives⟩ := hbeyond h
            exact .link htell hup hnode harrives

theorem walk_of_arrives (h : Arrives t create links dir parts place) :
    t.walk create links dir parts = .ok place := by
  induction h with
  | here => exact walk_nil
  | silent htell _ ih => rw [walk_silent htell, ih]
  | up _ ih => rw [walk_up, ih]
  | missing htell hup hnode hcreate _ ih => rw [walk_missing htell hup hnode, if_pos hcreate, ih]
  | dir htell hup hnode _ ih => rw [walk_dir htell hup hnode, ih]
  | file htell hup hnode => rw [walk_file htell hup hnode, if_pos rfl]
  | link htell hup hnode _ ih =>
    rw [walk_link htell hup hnode]
    exact ih

theorem walk_eq_ok :
    t.walk create links dir parts = .ok place ↔ Arrives t create links dir parts place :=
  ⟨arrives_of_walk, walk_of_arrives⟩

/-! ### Parts that say nothing -/

theorem walk_silents {silent : List Name} (h : ∀ part ∈ silent, ¬ telling part = true) :
    t.walk create links dir (silent ++ rest) = t.walk create links dir rest := by
  induction silent with
  | nil => rfl
  | cons part silent ih =>
    obtain ⟨hpart, hsilent⟩ := forall_mem_cons.mp h
    rw [cons_append, walk_silent (Bool.eq_false_iff.mpr hpart), ih hsilent]

theorem filter_telling_cons (htell : telling part = true)
    (h : (part :: rest).filter telling = parts.filter telling) :
    ∃ silent rest', parts = silent ++ part :: rest' ∧ (∀ q ∈ silent, ¬ telling q = true) ∧
      rest.filter telling = rest'.filter telling := by
  rw [filter_cons_of_pos htell] at h
  obtain ⟨silent, rest', hparts, hsilent, -, hrest⟩ := filter_eq_cons_iff.mp h.symm
  exact ⟨silent, rest', hparts, hsilent, hrest.symm⟩

/-- **A walk that has come to a directory goes on from there**, with the links
taken off that it has used.  The parts that say nothing do not matter. -/
theorem walk_append (h : Arrives t false links dir parts place) (hdir : t.node place = some .dir) :
    ∃ used ≤ links, ∀ parts', parts.filter telling = parts'.filter telling →
      ∀ create n rest, t.walk create n dir (parts' ++ rest) =
        if used ≤ n then t.walk create (n - used) place rest else .error .loop := by
  induction h with
  | here =>
    refine ⟨0, zero_le _, fun parts' hsame create n rest => ?_⟩
    rw [walk_silents (filter_eq_nil_iff.mp hsame.symm), if_pos (Nat.zero_le n), Nat.sub_zero]
  | silent htell _ ih =>
    rw [filter_cons_of_neg (by simp [htell])]
    exact ih hdir
  | missing _ _ _ hcreate => cases hcreate
  | file _ _ hnode =>
    rw [hnode] at hdir
    cases hdir
  | up _ ih =>
    obtain ⟨used, hused, h⟩ := ih hdir
    refine ⟨used, hused, fun parts' hsame create n rest => ?_⟩
    obtain ⟨silent, rest', rfl, hsilent, hrest⟩ := filter_telling_cons (by decide) hsame
    rw [append_assoc, walk_silents hsilent, cons_append, walk_up, h rest' hrest]
  | dir htell hup hnode _ ih =>
    obtain ⟨used, hused, h⟩ := ih hdir
    refine ⟨used, hused, fun parts' hsame create n rest => ?_⟩
    obtain ⟨silent, rest', rfl, hsilent, hrest⟩ := filter_telling_cons htell hsame
    rw [append_assoc, walk_silents hsilent, cons_append, walk_dir htell hup hnode,
      h rest' hrest]
  | link htell hup hnode _ ih =>
    obtain ⟨used, hused, h⟩ := ih hdir
    refine ⟨used + 1, succ_le_succ hused, fun parts' hsame create n rest => ?_⟩
    obtain ⟨silent, rest', rfl, hsilent, hrest⟩ := filter_telling_cons htell hsame
    rw [append_assoc, walk_silents hsilent, cons_append, walk_link htell hup hnode]
    cases n with
    | zero => rw [if_neg (not_succ_le_zero used)]; rfl
    | succ n =>
      show t.walk create n _ _ = _
      rw [← append_assoc, h _ (by rw [filter_append, filter_append, hrest])]
      simp only [Nat.add_le_add_iff_right, Nat.add_sub_add_right]

/-- **Two walks that both arrive arrive at the same place.** -/
theorem walk_unique {parts' place' : List Name} {create' : Bool} {links' : ℕ}
    (h : Arrives t false links dir parts place)
    (hsame : parts.filter telling = parts'.filter telling)
    (h' : t.walk create' links' dir parts' = .ok place') : place' = place := by
  induction h generalizing links' parts' with
  | here =>
    rw [← append_nil parts', walk_silents (filter_eq_nil_iff.mp hsame.symm),
      walk_nil] at h'
    exact (Except.ok.inj h').symm
  | silent htell _ ih =>
    rw [filter_cons_of_neg (by simp [htell])] at hsame
    exact ih hsame h'
  | missing _ _ _ hcreate => cases hcreate
  | up _ ih =>
    obtain ⟨silent, rest', rfl, hsilent, hrest⟩ := filter_telling_cons (by decide) hsame
    rw [walk_silents hsilent, walk_up] at h'
    exact ih hrest h'
  | dir htell hup hnode _ ih =>
    obtain ⟨silent, rest', rfl, hsilent, hrest⟩ := filter_telling_cons htell hsame
    rw [walk_silents hsilent, walk_dir htell hup hnode] at h'
    exact ih hrest h'
  | file htell hup hnode =>
    obtain ⟨silent, rest', rfl, hsilent, -⟩ := filter_telling_cons htell hsame
    rw [walk_silents hsilent, walk_file htell hup hnode] at h'
    split at h'
    · exact (Except.ok.inj h').symm
    · cases h'
  | link htell hup hnode _ ih =>
    obtain ⟨silent, rest', rfl, hsilent, hrest⟩ := filter_telling_cons htell hsame
    rw [walk_silents hsilent, walk_link htell hup hnode] at h'
    cases links' with
    | zero => cases h'
    | succ links' =>
      refine ih ?_ h'
      rw [filter_append, filter_append, hrest]

/-! ### What is there -/

/-- Above an entry are directories. -/
theorem node_above {above below : List Name} (h : t.node (above ++ below) ≠ none)
    (hbelow : below ≠ []) : t.node above = some .dir := by
  induction below using reverseRecOn with
  | nil => exact absurd rfl hbelow
  | append_singleton below name ih =>
    rw [← append_assoc] at h
    have hparent := t.parent _ _ h
    by_cases hnil : below = []
    · rw [hnil, append_nil] at hparent
      exact hparent
    · exact ih (by rw [hparent]; exact some_ne_none _) hnil

theorem node_dropLast (h : t.node dir = some .dir) : t.node dir.dropLast = some .dir := by
  rcases eq_nil_or_concat' dir with rfl | ⟨above, name, rfl⟩
  · exact h
  · rw [dropLast_concat]
    exact t.parent above name (by rw [h]; exact some_ne_none _)

/-- Where the search goes on behind a link is a directory. -/
theorem node_behind (target : List UInt8) (h : t.node dir = some .dir) :
    t.node (if (ofText target).rooted then [] else dir) = some .dir := by
  split
  · exact t.root
  · exact h

theorem telling_of_proper (h : Proper name) : telling name = true :=
  decide_eq_true ⟨h.ne_nil, h.ne_dot⟩

/-- A walk along directories. -/
theorem walk_dirs (path rest : List Name) (h : t.node (dir ++ path) = some .dir) :
    t.walk create links dir (path ++ rest) = t.walk create links (dir ++ path) rest := by
  induction path generalizing dir with
  | nil => rw [nil_append, append_nil]
  | cons name path ih =>
    rw [append_cons] at h ⊢
    have hname := t.names _ (by rw [h]; exact some_ne_none _) name (by simp)
    have hnode : t.node (dir ++ [name]) = some .dir := by
      by_cases hnil : path = []
      · rwa [hnil, append_nil] at h
      · exact node_above (by rw [h]; exact some_ne_none _) hnil
    rw [cons_append, walk_dir (telling_of_proper hname) hname.ne_dotdot hnode, ih h]

/-- Below a missing entry everything is created as it is named. -/
theorem walk_new (h : t.node dir = none) (hparts : dotdot ∉ parts) :
    t.walk true links dir parts = .ok (dir ++ parts.filter telling) := by
  induction parts generalizing dir with
  | nil => rw [walk_nil, filter_nil, append_nil]
  | cons part parts ih =>
    obtain ⟨hup, hparts⟩ := not_or.mp (mem_cons.not.mp hparts)
    cases htell : telling part with
    | false => rw [walk_silent htell, ih h hparts, filter_cons_of_neg (by simp [htell])]
    | true =>
      have hpart : t.node (dir ++ [part]) = none := by
        by_contra hne
        rw [t.parent _ _ hne] at h
        cases h
      rw [walk_missing htell (Ne.symm hup) hpart, if_pos rfl, ih hpart hparts,
        filter_cons_of_pos htell, append_assoc, singleton_append]

/-- What is found is there. -/
theorem node_of_arrives (h : Arrives t false links dir parts place)
    (hdir : t.node dir = some .dir) : t.node place ≠ none := by
  induction h with
  | here => rw [hdir]; exact some_ne_none _
  | silent _ _ ih => exact ih hdir
  | up _ ih => exact ih (node_dropLast hdir)
  | missing _ _ _ hcreate => cases hcreate
  | dir _ _ hnode _ ih => exact ih hnode
  | file _ _ hnode => rw [hnode]; exact some_ne_none _
  | @link _ _ _ _ _ target _ _ _ _ ih => exact ih (node_behind target hdir)

/-- What is found is a directory, or no path leads on from it. -/
theorem dir_or_end (h : Arrives t false links dir parts place) (hdir : t.node dir = some .dir) :
    t.node place = some .dir ∨
      ∀ rest, rest ≠ [] → t.walk false links dir (parts ++ rest) = .error .notdir := by
  induction h with
  | here => exact .inl hdir
  | silent htell _ ih =>
    refine (ih hdir).imp_right fun h more hmore => ?_
    rw [cons_append, walk_silent htell]
    exact h more hmore
  | up _ ih =>
    refine (ih (node_dropLast hdir)).imp_right fun h more hmore => ?_
    rw [cons_append, walk_up]
    exact h more hmore
  | missing _ _ _ hcreate => cases hcreate
  | dir htell hup hnode _ ih =>
    refine (ih hnode).imp_right fun h more hmore => ?_
    rw [cons_append, walk_dir htell hup hnode]
    exact h more hmore
  | file htell hup hnode =>
    refine .inr fun rest hrest => ?_
    rw [singleton_append, walk_file htell hup hnode, if_neg hrest]
  | @link links _ _ _ _ target htell hup hnode _ ih =>
    refine (ih (node_behind target hdir)).imp_right fun h more hmore => ?_
    rw [cons_append, walk_link htell hup hnode]
    show t.walk false links _ _ = _
    rw [← append_assoc]
    exact h more hmore

/-- Creation goes past an entry that is not found: the entry is missing, or it is a
link. -/
theorem walk_past_missing {n : ℕ} (htell : telling name = true) (hup : name ≠ dotdot)
    (hrest : dotdot ∉ rest) (hfail : t.walk false n dir [name] = .error .noent)
    (h : t.walk true links dir (name :: rest) = .ok place) :
    place = dir ++ name :: rest.filter telling ∨
      ∃ target left, t.node (dir ++ [name]) = some (.link target) ∧
        t.walk true left (if (ofText target).rooted then [] else dir)
          ((ofText target).parts ++ rest) = .ok place := by
  cases hnode : t.node (dir ++ [name]) with
  | none =>
    rw [walk_missing htell hup hnode, if_pos rfl, walk_new hnode hrest, append_assoc] at h
    exact .inl (Except.ok.inj h).symm
  | some node =>
    cases node with
    | dir =>
      rw [walk_dir htell hup hnode, walk_nil] at hfail
      cases hfail
    | file =>
      rw [walk_file htell hup hnode, if_pos rfl] at hfail
      cases hfail
    | link target =>
      rw [walk_link htell hup hnode] at h
      cases links with
      | zero => cases h
      | succ left => exact .inr ⟨target, left, rfl, h⟩

end Tree

end FileTree
