/-
EmailService/ByteReaders.lean

How bytes reach the parser of a mail header (`bufio.Reader`, `bytes.Reader`, and
internal/policy/context.go: `bytesReader`).

`mail.ReadMessage` reads through a buffer.  When the buffer is empty it asks the
reader below, again if the answer is empty, and after a hundred empty answers it
gives up.  `bytes.Reader` answers `io.EOF` at its end and `bytesReader` answers
nothing, so that a header the bytes end in is a header for the one and an error
for the other (`newEmailContext_eq`).
-/
import EmailService.MailHeader

namespace NetMail

inductive ReadErr
  | eof
  | noProgress
  deriving DecidableEq

/-- A reader over bytes, and the error that it answers when all are read. -/
structure Reader where
  data : List UInt8
  atEnd : Option ReadErr

/-- `bytes.NewReader`. -/
def newReader (data : List UInt8) : Reader := ⟨data, some .eof⟩

/-- `bytesReader`. -/
def bytesReader (data : List UInt8) : Reader := ⟨data, none⟩

namespace Reader

/-- `Read` of both, with room for `n` bytes. -/
def read (r : Reader) (n : ℕ) : List UInt8 × Option ReadErr × Reader :=
  if r.data = [] then ([], r.atEnd, r)
  else (r.data.take n, none, { r with data := r.data.drop n })

/-- `bufio.Reader.fill`, with so many tries left. -/
def fill (n : ℕ) : ℕ → Reader → Except ReadErr (List UInt8 × Reader)
  | 0, _ => .error .noProgress
  | tries + 1, r =>
    match r.read n with
    | (_, some err, _) => .error err
    | ([], none, r) => fill n tries r
    | (bytes, none, r) => .ok (bytes, r)

/-- What so many fills bring up to an error, and the error. -/
def drain (n : ℕ) : ℕ → Reader → List UInt8 × ReadErr
  | 0, _ => ([], .noProgress)
  | fills + 1, r =>
    match r.fill n 100 with
    | .error err => ([], err)
    | .ok (bytes, r) => (bytes ++ (drain n fills r).1, (drain n fills r).2)

/-- `mail.ReadMessage`: the error of the reader ends the header where the bytes
end, and only `io.EOF` is forgiven. -/
def readMessage (r : Reader) : Option (List Field) :=
  let (raw, err) := r.drain 4096 (r.data.length + 1)
  match (readHeader raw).2 with
  | .done => some (fields raw)
  | .eof => if err = .eof ∧ fields raw ≠ [] then some (fields raw) else none
  | .malformed => none

theorem fill_of_empty (n : ℕ) {r : Reader} (h : r.data = []) (tries : ℕ) :
    r.fill n (tries + 1) = .error (r.atEnd.getD .noProgress) := by
  have hread : r.read n = ([], r.atEnd, r) := if_pos h
  induction tries with
  | zero =>
    rw [fill, hread]
    cases r.atEnd with
    | none => rfl
    | some err => rfl
  | succ tries ih =>
    rw [fill, hread]
    cases hend : r.atEnd with
    | none => simpa [hend] using ih
    | some err => rfl

/-- **A reader brings its bytes, whatever the room in the buffer, and then its
error.** -/
theorem drain_eq {n : ℕ} (hn : 0 < n) (r : Reader) {fills : ℕ} (h : r.data.length < fills) :
    r.drain n fills = (r.data, r.atEnd.getD .noProgress) := by
  induction fills generalizing r with
  | zero => exact absurd h (Nat.not_lt_zero _)
  | succ fills ih =>
    by_cases hempty : r.data = []
    · rw [drain, fill_of_empty n hempty, hempty]
    · -- one read brings at least one byte
      have hlen : 0 < r.data.length := List.length_pos_iff.mpr hempty
      have htake : r.data.take n ≠ [] := by
        simp [List.take_eq_nil_iff, hempty, hn.ne']
      have hfill : r.fill n 100 = .ok (r.data.take n, { r with data := r.data.drop n }) := by
        rw [fill, read, if_neg hempty]
        split
        · next heq => cases heq
        · next heq => exact absurd (congrArg Prod.fst heq) htake
        · next heq => cases heq; rfl
      have hrest := ih { r with data := r.data.drop n } (by
        simp only [List.length_drop]
        omega)
      rw [drain, hfill]
      simp only [hrest, List.take_append_drop]

theorem readMessage_eq (r : Reader) :
    r.readMessage = match (readHeader r.data).2 with
      | .done => some (fields r.data)
      | .eof =>
        if r.atEnd.getD .noProgress = .eof ∧ fields r.data ≠ [] then some (fields r.data) else none
      | .malformed => none := by
  unfold readMessage
  rw [drain_eq (by decide) r (Nat.lt_succ_self _)]

end Reader

/-- The headers of `NewEmailContext`. -/
def newEmailContext (body : List UInt8) : Option (List Field) := (bytesReader body).readMessage

theorem readMessage_newReader (raw : List UInt8) : (newReader raw).readMessage = readMessage raw := by
  rcases hstop : (readHeader raw).2 with - | - | - <;>
    simp [Reader.readMessage_eq, newReader, readMessage, Readable, hstop]

/-- **A policy context needs the end of the header.** -/
theorem newEmailContext_eq (body : List UInt8) :
    newEmailContext body = if (readHeader body).2 = .done then some (fields body) else none := by
  rcases hstop : (readHeader body).2 with - | - | - <;>
    simp [newEmailContext, Reader.readMessage_eq, bytesReader, hstop]

end NetMail
