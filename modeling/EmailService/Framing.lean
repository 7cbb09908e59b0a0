/-
EmailService/Framing.lean

Record streams: a sequence of self-delimiting frames on one append-only medium.

A `Framing` fixes how a record is rendered to symbols and how a reader turns a
whole stream back into items.  A record need not be one item: `expand` says
which items it stands for, and may reject it.  The laws are what a
self-delimiting format with a forgiving end-of-file gives:

* the empty stream holds nothing;
* a frame at the front is read whole, and what follows it is read as if it
  stood alone;
* a cut-off frame is either skipped or, when only its delimiter is missing,
  read whole — never in part;
* whatever the stream, what is read is the items of some records.

From these follow the shape of every stream made of frames
(`decode_frames`) and of every prefix of one (`decode_frames_prefix`).
-/
import Mathlib

/-- The items a list of records stands for, if every one is well formed. -/
def Framing.expandAll {R E : Type*} (expand : R → Except String (List E)) :
    List R → Except String (List E)
  | [] => .ok []
  | r :: rs => do
      let es ← expand r
      let rest ← expandAll expand rs
      pure (es ++ rest)

/-- A record format over the symbols `α`, for records `R` standing for items
`E` as `expand` says. -/
structure Framing {R E : Type*} (expand : R → Except String (List E)) (α : Type*) where
  encode : R → Except String (List α)
  decode : List α → Except String (List E)
  decode_nil : decode [] = .ok []
  decode_append : ∀ {r s} (t : List α), encode r = .ok s →
    decode (s ++ t) = (do let es ← expand r; let rest ← decode t; pure (es ++ rest))
  decode_prefix : ∀ {r s p}, encode r = .ok s → p <+: s →
    decode p = .ok [] ∨ decode p = expand r
  decode_sound : ∀ {s es}, decode s = .ok es → ∃ rs, Framing.expandAll expand rs = .ok es

namespace Framing

open List

variable {R E α : Type*} {expand : R → Except String (List E)}

/-- `Frames F rs s`: the stream `s` is the frames of `rs`, in order. -/
inductive Frames (F : Framing expand α) : List R → List α → Prop
  | nil : Frames F [] []
  | cons {r rs s t} : F.encode r = .ok s → Frames F rs t → Frames F (r :: rs) (s ++ t)

variable {F : Framing expand α} {rs₁ rs₂ rs : List R} {r : R} {s t p : List α} {es es' : List E}

theorem Frames.append {s₁ s₂ : List α} (h₁ : Frames F rs₁ s₁) (h₂ : Frames F rs₂ s₂) :
    Frames F (rs₁ ++ rs₂) (s₁ ++ s₂) := by
  induction h₁ with
  | nil => exact h₂
  | cons he _ ih => rw [cons_append, append_assoc]; exact .cons he ih

theorem Frames.concat (h : Frames F rs s) (he : F.encode r = .ok t) :
    Frames F (rs ++ [r]) (s ++ t) := by
  have h₁ : Frames F [r] (t ++ []) := .cons he .nil
  rw [append_nil] at h₁
  exact h.append h₁

/-! ### Items of well-formed records -/

theorem expandAll_append {es₁ es₂ : List E} (h₁ : expandAll expand rs₁ = .ok es₁)
    (h₂ : expandAll expand rs₂ = .ok es₂) : expandAll expand (rs₁ ++ rs₂) = .ok (es₁ ++ es₂) := by
  induction rs₁ generalizing es₁ with
  | nil => cases h₁; exact h₂
  | cons r rs ih =>
    simp only [expandAll] at h₁
    rcases hr : expand r with e | es
    · rw [hr] at h₁; cases h₁
    · rcases hrs : expandAll expand rs with e | es'
      · rw [hr, hrs] at h₁; cases h₁
      · rw [hr, hrs] at h₁
        cases h₁
        simp only [cons_append, expandAll, hr, ih hrs]
        exact congrArg Except.ok (append_assoc ..).symm

theorem expandAll_concat (h : expandAll expand rs = .ok es) (hr : expand r = .ok es') :
    expandAll expand (rs ++ [r]) = .ok (es ++ es') := by
  refine expandAll_append h ?_
  simp only [expandAll, hr]
  exact congrArg Except.ok (append_nil es')

/-! ### Reading streams -/

section

variable (h : Frames F rs s)

include h

/-- **A stream of frames reads back as its records' items**, whatever well
formed or malformed stream follows. -/
theorem decode_frames_append (hes : expandAll expand rs = .ok es) (t : List α) :
    F.decode (s ++ t) = (do let rest ← F.decode t; pure (es ++ rest)) := by
  induction h generalizing es with
  | nil =>
    cases hes
    rcases ht : F.decode t with e | rest <;> simp [ht]
  | @cons r rs s s' he _ ih =>
    simp only [expandAll] at hes
    rcases hr : expand r with e | es₁
    · rw [hr] at hes; cases hes
    · rcases hrs : expandAll expand rs with e | es₂
      · rw [hr, hrs] at hes; cases hes
      · rw [hr, hrs] at hes
        cases hes
        rw [append_assoc, F.decode_append _ he, ih hrs, hr]
        rcases F.decode t with e | rest
        · rfl
        · exact congrArg Except.ok (append_assoc ..).symm

theorem decode_frames (hes : expandAll expand rs = .ok es) :
    F.decode s = .ok es := by
  have h' := decode_frames_append h hes []
  rw [append_nil, F.decode_nil] at h'
  rw [h']
  exact congrArg Except.ok (append_nil es)

/-- A stream of frames followed by a piece of one more frame reads back as the
records' items, followed by nothing or by the whole of that frame's items. -/
theorem decode_frames_partial (hes : expandAll expand rs = .ok es)
    (he : F.encode r = .ok t) (hr : expand r = .ok es') (hp : p <+: t) :
    F.decode (s ++ p) = .ok es ∨ F.decode (s ++ p) = .ok (es ++ es') := by
  rw [decode_frames_append h hes]
  rcases F.decode_prefix he hp with hd | hd
  · left; rw [hd]; exact congrArg Except.ok (append_nil es)
  · right; rw [hd, hr]; rfl

/-- **Every prefix of a stream of frames reads back as the items of an initial
segment of its records.** -/
theorem decode_frames_prefix (hok : ∀ r ∈ rs, ∃ es, expand r = .ok es)
    (hp : p <+: s) :
    ∃ rs', rs' <+: rs ∧ ∃ es, expandAll expand rs' = .ok es ∧ F.decode p = .ok es := by
  induction h generalizing p with
  | nil =>
    rw [prefix_nil.mp hp]
    exact ⟨[], nil_prefix, [], rfl, F.decode_nil⟩
  | @cons r rs s t he _ ih =>
    obtain ⟨es, hes⟩ := hok r mem_cons_self
    rcases Nat.le_total p.length s.length with hle | hle
    · -- the cut falls inside the first frame
      have hps : p <+: s := prefix_of_prefix_length_le hp (prefix_append s t) hle
      rcases F.decode_prefix he hps with hd | hd
      · exact ⟨[], nil_prefix, [], rfl, hd⟩
      · refine ⟨[r], ⟨rs, rfl⟩, es, ?_, hd.trans hes⟩
        simp only [expandAll, hes]
        exact congrArg Except.ok (append_nil es)
    · -- the first frame is complete; the cut falls in what follows it
      obtain ⟨q, rfl⟩ : s <+: p :=
        prefix_of_prefix_length_le (prefix_append s t) hp hle
      have hq : q <+: t := (prefix_append_right_inj s).mp hp
      obtain ⟨rs', hrs', es', hes', hd⟩ :=
        ih (fun r' hr' => hok r' (mem_cons_of_mem _ hr')) hq
      refine ⟨r :: rs', (cons_prefix_cons).mpr ⟨rfl, hrs'⟩, es ++ es', ?_, ?_⟩
      · simp only [expandAll, hes, hes']; rfl
      · rw [F.decode_append _ he, hes, hd]; rfl

end

end Framing
