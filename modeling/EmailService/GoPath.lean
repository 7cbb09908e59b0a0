/-
GoPath.lean

Slash-separated paths, as the package path/filepath of Go treats them: the
lexical rules, without a file system.

A path is the list of the parts between its slashes.  `clean` drops what is
superfluous, and what is left are proper names after the `..` in front.
`relative` leads from one cleaned absolute path to another, and it leads
upwards exactly if the first is no prefix of the second (`leavesUp_relative`).
-/
import EmailService.GoStrings

namespace GoPath

open List

/-- A part of a path, as bytes. -/
abbrev Name := List UInt8

def dot : Name := [46]
def dotdot : Name := [46, 46]

/-- The parts of a path between its slashes, and whether it starts with one. -/
structure Path where
  rooted : Bool
  parts : List Name
  deriving DecidableEq

def ofText : List UInt8 → Path
  | 47 :: rest => ⟨true, rest.splitOn 47⟩
  | s => ⟨false, s.splitOn 47⟩

/-- The text of a cleaned path. -/
def Path.text (p : Path) : List UInt8 :=
  if p.rooted then 47 :: [47].intercalate p.parts
  else if p.parts = [] then dot
  else [47].intercalate p.parts

/-- A part that names an entry of a directory. -/
structure Proper (name : Name) : Prop where
  ne_nil : name ≠ []
  ne_dot : name ≠ dot
  ne_dotdot : name ≠ dotdot
  slash : 47 ∉ name

instance (name : Name) : Decidable (Proper name) :=
  decidable_of_iff (name ≠ [] ∧ name ≠ dot ∧ name ≠ dotdot ∧ 47 ∉ name)
    ⟨fun ⟨h₁, h₂, h₃, h₄⟩ => ⟨h₁, h₂, h₃, h₄⟩, fun h => ⟨h.1, h.2, h.3, h.4⟩⟩

/-! ### Clean -/

/-- One more part on the stack of those kept, the last one on top. -/
def cleanStep (rooted : Bool) (stack : List Name) (part : Name) : List Name :=
  if part = [] ∨ part = dot then stack
  else if part = dotdot then
    match stack with
    | [] => if rooted then [] else [dotdot]
    | top :: rest => if top = dotdot then dotdot :: top :: rest else rest
  else part :: stack

/-- `filepath.Clean`. -/
def Path.clean (p : Path) : Path :=
  ⟨p.rooted, (p.parts.foldl (cleanStep p.rooted) []).reverse⟩

/-- `filepath.Abs` in the working directory `cwd`. -/
def Path.abs (cwd : List Name) (p : Path) : List Name :=
  (Path.clean ⟨true, if p.rooted then p.parts else cwd ++ p.parts⟩).parts

/-! ### Rel -/

/-- `filepath.Rel` for cleaned absolute paths. -/
def relative : List Name → List Name → List Name
  | [], target => target
  | base, [] => replicate base.length dotdot
  | b :: base, t :: target =>
    if b = t then relative base target
    else replicate (base.length + 1) dotdot ++ t :: target

/-- The text of a relative path is `..` or starts with `../`. -/
def leavesUp (parts : List Name) : Bool :=
  let text := Path.text ⟨false, parts⟩
  text = dotdot || [46, 46, 47].isPrefixOf text

/-! ### Parts -/

section Parts

variable {parts : List Name} {s : List UInt8} {part : Name}

/-- A part has no slash. -/
theorem notMem_of_mem_splitOn (h : part ∈ s.splitOn 47) : 47 ∉ part := by
  induction s generalizing part with
  | nil => simp_all
  | cons c s ih =>
    rw [splitOn_cons_eq_if_modifyHead] at h
    split at h
    · rcases mem_cons.mp h with rfl | h
      · exact not_mem_nil
      · exact ih h
    · next hc =>
      -- the byte goes to the first part
      cases hparts : s.splitOn 47 with
      | nil => simp [hparts] at h
      | cons first rest =>
        rw [hparts, modifyHead_cons, mem_cons] at h
        rcases h with rfl | h
        · intro hmem
          rcases mem_cons.mp hmem with rfl | hmem
          · exact hc (beq_self_eq_true _)
          · exact ih (hparts ▸ mem_cons_self) hmem
        · exact ih (hparts ▸ mem_cons_of_mem _ h)

theorem slash_notMem_parts (h : part ∈ (ofText s).parts) : 47 ∉ part := by
  unfold ofText at h
  split at h <;> exact notMem_of_mem_splitOn h

theorem slash_notMem_dotdot : 47 ∉ dotdot := by decide

/-- A path of proper names does not lead upwards. -/
theorem leavesUp_proper (h : ∀ part ∈ parts, Proper part) : leavesUp parts = false := by
  unfold leavesUp Path.text
  rw [if_neg nofun]
  match parts, h with
  | [], _ => rfl
  | [part], h =>
    have hpart := h part mem_cons_self
    rw [if_neg (cons_ne_nil _ _), intercalate_singleton, Bool.or_eq_false_iff]
    refine ⟨decide_eq_false hpart.ne_dotdot, Bool.eq_false_iff.mpr fun hup => ?_⟩
    obtain ⟨rest, hrest⟩ := isPrefixOf_iff_prefix.mp hup
    exact hpart.slash (hrest ▸ by simp)
  | part :: next :: rest, h =>
    have hpart := h part mem_cons_self
    rw [if_neg (cons_ne_nil _ _), intercalate_cons_cons, Bool.or_eq_false_iff,
      append_assoc]
    refine ⟨decide_eq_false fun heq => ?_, Bool.eq_false_iff.mpr fun hup => ?_⟩
    · exact slash_notMem_dotdot (heq ▸ by simp)
    · -- the first part would be `..`
      obtain ⟨tail, htail⟩ := isPrefixOf_iff_prefix.mp hup
      exact hpart.ne_dotdot
        (GoStrings.eq_of_append_cons (x := dotdot) slash_notMem_dotdot hpart.slash htail).1.symm

theorem leavesUp_dotdot (rest : List Name) : leavesUp (dotdot :: rest) = true := by
  unfold leavesUp Path.text
  rw [if_neg nofun, if_neg (cons_ne_nil _ _)]
  cases rest with
  | nil => rfl
  | cons next rest =>
    rw [intercalate_cons_cons, Bool.or_eq_true]
    exact .inr ( isPrefixOf_iff_prefix.mpr ⟨_, rfl⟩)

end Parts

/-! ### Where a relative path leads -/

section Relative

variable {base target : List Name}

theorem relative_append (base rest : List Name) : relative base (base ++ rest) = rest := by
  induction base with
  | nil => rfl
  | cons b base ih => simpa [relative] using ih

theorem relative_of_not_prefix (h : ¬ base <+: target) :
    ∃ up, relative base target = dotdot :: up ∧ ∀ part ∈ up, part = dotdot ∨ part ∈ target := by
  induction base generalizing target with
  | nil => exact absurd nil_prefix h
  | cons b base ih =>
    cases target with
    | nil =>
      refine ⟨replicate base.length dotdot, rfl, fun part hpart => ?_⟩
      exact .inl (eq_of_mem_replicate hpart)
    | cons t target =>
      by_cases hbt : b = t
      · subst hbt
        have hrest : ¬ base <+: target := fun hp => h (cons_prefix_cons.mpr ⟨rfl, hp⟩)
        obtain ⟨up, heq, hup⟩ := ih hrest
        refine ⟨up, by rw [relative, if_pos rfl, heq], fun part hpart => ?_⟩
        exact (hup part hpart).imp_right (mem_cons_of_mem _)
      · refine ⟨replicate base.length dotdot ++ t :: target, ?_, fun part hpart => ?_⟩
        · rw [relative, if_neg hbt, replicate_succ, cons_append]
        · exact (mem_append.mp hpart).imp_left eq_of_mem_replicate

/-- **A relative path leads upwards unless its base is a prefix of its target.** -/
theorem leavesUp_relative (h : ∀ part ∈ target, Proper part) :
    leavesUp (relative base target) = false ↔ base <+: target := by
  constructor
  · intro hup
    by_contra hnot
    obtain ⟨up, heq, -⟩ := relative_of_not_prefix hnot
    rw [heq, leavesUp_dotdot] at hup
    cases hup
  · rintro ⟨rest, rfl⟩
    rw [relative_append]
    exact leavesUp_proper fun part hpart => h part (mem_append_right _ hpart)

end Relative

/-! ### What cleaning leaves -/

section Clean

variable {rooted : Bool} {parts stack : List Name}

/-- Parts that say something. -/
def telling (part : Name) : Bool := part ≠ [] ∧ part ≠ dot

variable {part : Name}

theorem cleanStep_of_telling (htell : telling part = true) (hup : part ≠ dotdot) :
    cleanStep rooted stack part = part :: stack := by
  rw [telling, decide_eq_true_eq] at htell
  unfold cleanStep
  rw [if_neg (not_or.mpr htell), if_neg hup]

theorem cleanStep_of_not_telling (h : telling part = false) :
    cleanStep rooted stack part = stack := by
  rw [telling, decide_eq_false_iff_not, not_and_or, not_not, not_not] at h
  unfold cleanStep
  rw [if_pos h]

/-- Without `..` cleaning keeps the parts that say something. -/
theorem foldl_cleanStep (h : dotdot ∉ parts) :
    parts.foldl (cleanStep rooted) stack = (parts.filter telling).reverse ++ stack := by
  induction parts generalizing stack with
  | nil => rfl
  | cons part parts ih =>
    obtain ⟨hpart, hparts⟩ := not_or.mp (mem_cons.not.mp h)
    rw [foldl_cons, ih hparts]
    cases htell : telling part with
    | false =>
      rw [cleanStep_of_not_telling htell, filter_cons_of_neg (by simp [htell])]
    | true =>
      rw [cleanStep_of_telling htell (Ne.symm hpart), filter_cons_of_pos htell,
        reverse_cons, append_assoc, singleton_append]

theorem clean_of_notMem (h : dotdot ∉ parts) :
    Path.clean ⟨rooted, parts⟩ = ⟨rooted, parts.filter telling⟩ := by
  rw [Path.clean, foldl_cleanStep h, append_nil, reverse_reverse]

/-- A cleaned absolute path is made of proper names. -/
theorem proper_clean (h : ∀ part ∈ parts, 47 ∉ part) :
    ∀ part ∈ (Path.clean ⟨true, parts⟩).parts, Proper part := by
  have hstep : ∀ stack, (∀ part ∈ stack, Proper part) →
      ∀ part ∈ parts.foldl (cleanStep true) stack, Proper part := by
    induction parts with
    | nil => exact fun stack hstack => hstack
    | cons part parts ih =>
      intro stack hstack
      refine ih (fun q hq => h q (mem_cons_of_mem _ hq)) _ ?_
      cases htell : telling part with
      | false =>
        rw [cleanStep_of_not_telling htell]
        exact hstack
      | true =>
        by_cases hup : part = dotdot
        · subst hup
          unfold cleanStep
          rw [if_neg (by decide), if_pos rfl]
          cases stack with
          | nil => exact nofun
          | cons top rest =>
            dsimp only
            rw [if_neg (hstack top mem_cons_self).ne_dotdot]
            exact fun q hq => hstack q (mem_cons_of_mem _ hq)
        · rw [cleanStep_of_telling htell hup]
          rw [telling, decide_eq_true_eq] at htell
          exact forall_mem_cons.mpr
            ⟨⟨htell.1, htell.2, hup, h part mem_cons_self⟩, hstack⟩
  exact fun part hpart => hstep [] nofun part (mem_reverse.mp hpart)

theorem clean_of_proper (h : ∀ part ∈ parts, Proper part) :
    Path.clean ⟨rooted, parts⟩ = ⟨rooted, parts⟩ := by
  rw [clean_of_notMem fun hmem => (h _ hmem).ne_dotdot rfl, filter_eq_self.mpr]
  exact fun part hpart => decide_eq_true ⟨(h part hpart).ne_nil, (h part hpart).ne_dot⟩

/-- A text of proper names is read back. -/
theorem ofText_intercalate (h : ∀ part ∈ parts, Proper part) (hne : parts ≠ []) :
    ofText ([47].intercalate parts) = ⟨false, parts⟩ := by
  have hsplit := splitOn_intercalate 47 (fun part hpart => (h part hpart).slash) hne
  obtain ⟨part, rest, rfl⟩ := exists_cons_of_ne_nil hne
  have hpart := h part mem_cons_self
  obtain ⟨c, tail, rfl⟩ := exists_cons_of_ne_nil hpart.ne_nil
  have hc : c ≠ 47 := fun heq => hpart.slash (heq ▸ mem_cons_self)
  obtain ⟨more, hmore⟩ : ∃ more, [47].intercalate ((c :: tail) :: rest) = c :: more := by
    cases rest with
    | nil => exact ⟨tail, intercalate_singleton ..⟩
    | cons next rest => exact ⟨_, by rw [intercalate_cons_cons]; rfl⟩
  rw [hmore] at hsplit ⊢
  unfold ofText
  split
  · next heq => exact absurd (cons.inj heq).1 hc
  · rw [hsplit]

end Clean

end GoPath
