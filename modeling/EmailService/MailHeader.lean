/-
EmailService/MailHeader.lean

The header of a mail message, as `net/mail` reads it.

A message is read line by line.  A field is a line with a colon and the lines
after it that begin with a blank; the header ends at an empty line.  `fields`
lists what was read, in the order of the message, where the map of the library
only keeps the order among fields of one name.
-/
import EmailService.Utf8

namespace NetMail

/-! ### Lines -/

/-- Cut after every line feed; only the last line may lack one. -/
def lines : List UInt8 → List (List UInt8)
  | [] => []
  | b :: rest =>
    if b = 10 then [b] :: lines rest
    else
      match lines rest with
      | [] => [[b]]
      | l :: ls => (b :: l) :: ls

/-- A line without the line feed that ends it, or the carriage return and line
feed. -/
def chomp (line : List UInt8) : List UInt8 :=
  match line.reverse with
  | 10 :: 13 :: rest => rest.reverse
  | 10 :: rest => rest.reverse
  | _ => line

def isBlank (b : UInt8) : Bool := b = 32 || b = 9

def startsBlank (line : List UInt8) : Bool := line.head?.any isBlank

/-- `textproto.trim`. -/
def trimBlank (l : List UInt8) : List UInt8 := (l.dropWhile isBlank).rdropWhile isBlank

/-! ### Fields -/

structure Field where
  key : List UInt8
  value : List UInt8
  deriving DecidableEq

/-- Why the reading of a header stopped. -/
inductive Stop
  | done
  | eof
  | malformed
  deriving DecidableEq

/-- `ReadContinuedLine` after the first line: what is read so far, with the
lines that go on with it. -/
def continued (buf : List UInt8) : List (List UInt8) → List UInt8 × List (List UInt8)
  | [] => (buf, [])
  | l :: ls =>
    if startsBlank l then continued (buf ++ 32 :: trimBlank (chomp l)) ls else (buf, l :: ls)

/-- `validHeaderFieldByte`. -/
def validHeaderFieldByte (b : UInt8) : Bool :=
  (48 ≤ b.toNat && b.toNat ≤ 57) || (65 ≤ b.toNat && b.toNat ≤ 90) ||
    (97 ≤ b.toNat && b.toNat ≤ 122) ||
    [33, 35, 36, 37, 38, 39, 42, 43, 45, 46, 94, 95, 96, 124, 126].contains b

/-- The loop of `canonicalMIMEHeaderKey`. -/
def capitalize : Bool → List UInt8 → List UInt8
  | _, [] => []
  | upper, b :: rest =>
    let c :=
      if upper && (97 ≤ b.toNat && b.toNat ≤ 122) then b - 32
      else if !upper && (65 ≤ b.toNat && b.toNat ≤ 90) then b + 32
      else b
    c :: capitalize (c = 45) rest

/-- `CanonicalMIMEHeaderKey`: a key with a byte that no key has stays as it is. -/
def canonicalMIMEHeaderKey (key : List UInt8) : List UInt8 :=
  if key.all validHeaderFieldByte then capitalize true key else key

/-- `strings.Cut` at a colon. -/
def cutColon (l : List UInt8) : Option (List UInt8 × List UInt8) :=
  match l.dropWhile (· ≠ 58) with
  | [] => none
  | _ :: value => some (l.takeWhile (· ≠ 58), value)

/-- The loop of `readHeader`. -/
def readFields : ℕ → List (List UInt8) → List Field × Stop
  | 0, _ => ([], .eof)
  | _ + 1, [] => ([], .eof)
  | n + 1, l :: ls =>
    if chomp l = [] then ([], .done)
    else
      let (kv, rest) := continued (trimBlank (chomp l)) ls
      if kv = [] then ([], .done)
      else
        match cutColon kv with
        | none => ([], .malformed)
        | some (k, v) =>
          let (fields, stop) := readFields n rest
          if canonicalMIMEHeaderKey k = [] then (fields, stop)
          else (⟨canonicalMIMEHeaderKey k, v.dropWhile isBlank⟩ :: fields, stop)

variable (raw : List UInt8)

/-- `readHeader`: the first line cannot start with a blank. -/
def readHeader : List Field × Stop :=
  if startsBlank raw then ([], .malformed) else readFields ((lines raw).length + 1) (lines raw)

/-- The fields of a message. -/
def fields : List Field := (readHeader raw).1

/-- `mail.ReadMessage` finds no error. -/
def Readable : Prop :=
  (readHeader raw).2 = .done ∨ ((readHeader raw).2 = .eof ∧ fields raw ≠ [])

instance (raw : List UInt8) : Decidable (Readable raw) := inferInstanceAs (Decidable (_ ∨ _))

/-- The header of `mail.ReadMessage`. -/
def readMessage : Option (List Field) :=
  if Readable raw then some (fields raw) else none

variable (fs : List Field) (key : List UInt8)

/-- The values of one key, in the order of the message. -/
def values : List (List UInt8) :=
  (fs.filter (·.key = key)).map Field.value

/-- `Header.Get` with a canonical key. -/
def get : List UInt8 := (values fs key).headD []

end NetMail
