/-
EmailService/MimeLines.lean

The lines of a base64 part (`mimeLineWriter`, internal/jmap/compose_mime.go).

Over a writer that takes what it is offered, a write is a write of one byte after the
other (`writeLoop_taking`), so it does not matter how a part is cut into writes.
-/
import EmailService.Snapshots

namespace EmailService.Jmap

open List Nat

/-- `mimeLineWriter`; `out` is what the writer below it took. -/
structure MimeLineWriter where
  out : Text
  column : ℕ

/-- A writer: how much it takes of what it is offered after what it took, and its error. -/
abbrev Writer := Text → Text → ℕ × Option String

/-- A writer that takes everything. -/
def taking : Writer := fun _ p => (p.length, none)

def crlf : Text := [13, 10]

namespace MimeLineWriter

/-- The line break in `Write`, if one is due. -/
def wrap (W : Writer) (w : MimeLineWriter) : Option String × MimeLineWriter :=
  if w.column = 76 then
    let (n, err) := W w.out crlf
    (err, ⟨w.out ++ crlf.take n, if err = none then 0 else 76⟩)
  else (none, w)

/-- The loop of `Write`. -/
def writeLoop (W : Writer) :
    ℕ → Text → ℕ → MimeLineWriter → (ℕ × Option String) × MimeLineWriter
  | 0, _, total, w => ((total, none), w)
  | _ + 1, [], total, w => ((total, none), w)
  | fuel + 1, p, total, w =>
    match wrap W w with
    | (some err, w) => ((total, some err), w)
    | (none, w) =>
      let n := min (76 - w.column) p.length
      let (written, err) := W w.out (p.take n)
      let w := ⟨w.out ++ p.take written, w.column + written⟩
      if err ≠ none then ((total + written, err), w)
      else if written ≠ n then ((total + written, some "short write"), w)
      else writeLoop W fuel (p.drop written) (total + written) w

/-- `Write`; a round that is not the last one takes a byte. -/
def write (W : Writer) (p : Text) := writeLoop W p.length p 0

/-- The writer after these writes. -/
def wrote (chunks : List Text) : MimeLineWriter :=
  chunks.foldl (fun w p => (write taking p w).2) ⟨[], 0⟩

/-- The lines hold these bytes, and all but the last one are full. -/
def Wrapped (p : Text) (w : MimeLineWriter) : Prop :=
  ∃ (lines : List Text) (last : Text), w.out = lines.flatMap (· ++ crlf) ++ last ∧
    lines.flatten ++ last = p ∧ (∀ line ∈ lines, line.length = 76) ∧
    last.length = w.column ∧ w.column ≤ 76

/-- A write of one byte. -/
def put (w : MimeLineWriter) (b : UInt8) : MimeLineWriter :=
  if w.column = 76 then ⟨w.out ++ crlf ++ [b], 1⟩ else ⟨w.out ++ [b], w.column + 1⟩

variable {w : MimeLineWriter} {p : Text}

/-- What fits in the line. -/
theorem foldl_put_line (h : w.column + p.length ≤ 76) :
    p.foldl put w = ⟨w.out ++ p, w.column + p.length⟩ := by
  induction p generalizing w with
  | nil => simp
  | cons b p ih =>
    rw [length_cons] at h
    have hput : put w b = ⟨w.out ++ [b], w.column + 1⟩ := if_neg (by omega)
    rw [foldl_cons, hput, ih (by dsimp only; omega)]
    simp [add_comm, add_left_comm]

theorem wrap_taking (h : w.column ≤ 76) :
    ∃ w', wrap taking w = (none, w') ∧ w'.column < 76 ∧ put w' = put w := by
  unfold wrap
  split_ifs with hcolumn
  · refine ⟨_, rfl, succ_pos _, ?_⟩
    funext b
    exact (if_pos hcolumn).symm
  · exact ⟨w, rfl, by omega, rfl⟩

theorem writeLoop_taking {fuel : ℕ} (hfuel : p.length ≤ fuel) (h : w.column ≤ 76) (total : ℕ) :
    writeLoop taking fuel p total w = ((total + p.length, none), p.foldl put w) := by
  induction fuel generalizing p w total with
  | zero => rw [length_eq_zero_iff.mp (le_zero.mp hfuel)]; rfl
  | succ fuel ih =>
    rcases p with - | ⟨b, p⟩
    · rfl
    · obtain ⟨w', hwrap, hlt, hput⟩ := wrap_taking h
      -- the round writes what fits in the line, and the next ones the rest
      let n := min (76 - w'.column) (p.length + 1)
      have hle : n ≤ (b :: p).length := min_le_right _ _
      have hn : ((b :: p).take n).length = n := length_take_of_le hle
      have hline := foldl_put_line (w := w') (p := (b :: p).take n) (by omega)
      have hround : writeLoop taking (fuel + 1) (b :: p) total w =
          writeLoop taking fuel ((b :: p).drop n) (total + n)
            (((b :: p).take n).foldl put w') := by
        rw [hline, hn]
        simp [writeLoop, hwrap, taking, n]
      rw [hround, ih, ← foldl_append, take_append_drop, foldl_cons, hput, length_drop,
        add_assoc, add_sub_of_le hle]
      · rfl
      · rw [length_cons] at hfuel
        rw [length_drop, length_cons]
        omega
      · rw [hline, hn]
        dsimp only
        omega

theorem Wrapped.put (h : Wrapped p w) (b : UInt8) : Wrapped (p ++ [b]) (w.put b) := by
  obtain ⟨lines, last, hout, rfl, hlines, hlast, hle⟩ := h
  unfold MimeLineWriter.put
  split_ifs with hcolumn
  -- the last line is full, and the byte begins the next one
  · refine ⟨lines ++ [last], [b], by simp [hout], by simp, ?_, rfl, succ_pos _⟩
    simpa [or_imp, forall_and] using ⟨hlines, hlast.trans hcolumn⟩
  · refine ⟨lines, last ++ [b], by simp [hout], by simp, hlines, by simp [hlast], ?_⟩
    dsimp only
    omega

theorem Wrapped.foldl_put (h : Wrapped p w) (q : Text) :
    Wrapped (p ++ q) (q.foldl MimeLineWriter.put w) := by
  induction q generalizing w p with
  | nil => simpa using h
  | cons b q ih => simpa using ih (h.put b)

theorem Wrapped.foldl_write (h : Wrapped p w) (chunks : List Text) :
    chunks.foldl (fun w p => (write taking p w).2) w =
      chunks.flatten.foldl MimeLineWriter.put w := by
  induction chunks generalizing w p with
  | nil => rfl
  | cons q chunks ih =>
    have hq : (write taking q w).2 = q.foldl MimeLineWriter.put w := by
      obtain ⟨-, -, -, -, -, -, hle⟩ := h
      rw [write, writeLoop_taking le_rfl hle]
    rw [foldl_cons, hq, ih (h.foldl_put q), flatten_cons, foldl_append]

theorem wrote_wraps (chunks : List Text) :
    wrote chunks = wrote [chunks.flatten] ∧ Wrapped chunks.flatten (wrote chunks) := by
  have hstart : Wrapped [] ⟨[], 0⟩ := ⟨[], [], rfl, rfl, nofun, rfl, zero_le _⟩
  unfold wrote
  rw [hstart.foldl_write, hstart.foldl_write, flatten_singleton]
  exact ⟨rfl, hstart.foldl_put _⟩

end MimeLineWriter

end EmailService.Jmap
