/-
EmailService/MailAddress.lean

Addresses of a mail header, as the parser of `net/mail` reads them.

The parser goes through a string rune by rune; `none` stands for a byte that
belongs to no rune.  Each function takes what is left of the string and gives
back its result with what is left then, or nothing if it finds an error.  The
texts of the errors are left out: nobody reads them.
-/
import EmailService.Utf8

namespace NetMail

/-- A string as its runes. -/
abbrev Text := List (Option Char)

def text (l : List UInt8) : Text := Utf8.pieces l

/-! ### Characters -/

variable (c : Char)

/-- `isVchar`: the printing characters, and all beyond ASCII. -/
def isVchar : Bool := ('!' ≤ c && c ≤ '~') || 128 ≤ c.toNat

/-- `isAtext`; the specials are no part of an atom. -/
def isAtext (dot : Bool) (c : Char) : Bool :=
  if c = '.' then dot
  else if ['(', ')', '<', '>', '[', ']', ':', ';', '@', '\\', ',', '"'].contains c then false
  else isVchar c

def isQtext : Bool := c ≠ '\\' && c ≠ '"' && isVchar c

def isDtext : Bool := c ≠ '[' && c ≠ ']' && c ≠ '\\' && isVchar c

def isWSP : Bool := c = ' ' || c = '\t'

/-! ### IP addresses -/

variable (cs : List Char)

/-- One field of an IPv4 address. -/
def isOctet : Bool :=
  cs ≠ [] && cs.all Char.isDigit && (cs.length = 1 || cs.head? ≠ some '0') &&
    cs.foldl (fun n c => 10 * n + (c.toNat - 48)) 0 ≤ 255

/-- `parseIPv4`. -/
def isIPv4 : Bool :=
  (cs.splitOn '.').length = 4 && (cs.splitOn '.').all isOctet

def isHex : Bool :=
  c.isDigit || ('a' ≤ c && c ≤ 'f') || ('A' ≤ c && c ≤ 'F')

/-- The loop of `parseIPv6`, with `i` bytes stored: how many bytes the whole
address stores, and whether there was an ellipsis. -/
def ipv6Fields : ℕ → ℕ → Bool → List Char → Option (ℕ × Bool)
  | 0, i, ellipsis, cs => if cs = [] then some (i, ellipsis) else none
  | n + 1, i, ellipsis, cs =>
    let digits := cs.takeWhile isHex
    if digits = [] ∨ 4 < digits.length then none
    else
      match cs.drop digits.length with
      | [] => some (i + 2, ellipsis)
      | '.' :: _ =>
        if (!ellipsis ∧ i ≠ 12) ∨ 16 < i + 4 then none
        else if isIPv4 cs then some (i + 4, ellipsis)
        else none
      | [':'] => none
      | [':', ':'] => if ellipsis then none else some (i + 2, true)
      | ':' :: ':' :: rest =>
        if ellipsis then none else ipv6Fields n (i + 2) true rest
      | ':' :: rest => ipv6Fields n (i + 2) ellipsis rest
      | _ => none

/-- An ellipsis must leave room for at least one field. -/
def isIPv6 : Bool :=
  let full : Option (ℕ × Bool) → Bool
    | none => false
    | some (i, ellipsis) => if ellipsis then i < 16 else i = 16
  match cs with
  | [':', ':'] => true
  | ':' :: ':' :: rest => full (ipv6Fields 8 0 true rest)
  | _ => full (ipv6Fields 8 0 false cs)

/-- Whether `net.ParseIP` finds an address; a zone is refused. -/
def isIP : Bool :=
  match cs.find? (['.', ':', '%'].contains ·) with
  | some '.' => isIPv4 cs
  | some ':' => isIPv6 cs
  | _ => false

/-! ### Encoded words -/

def base64Digit : Option ℕ :=
  if 'A' ≤ c ∧ c ≤ 'Z' then some (c.toNat - 65)
  else if 'a' ≤ c ∧ c ≤ 'z' then some (c.toNat - 71)
  else if c.isDigit then some (c.toNat + 4)
  else if c = '+' then some 62
  else if c = '/' then some 63
  else none

/-- The decoder of `base64.StdEncoding`, on a text without line ends. -/
def base64Quanta : List Char → Option (List UInt8)
  | [] => some []
  | [a, b, '=', '='] => do
      let a ← base64Digit a
      let b ← base64Digit b
      pure [UInt8.ofNat (4 * a + b / 16)]
  | [a, b, c, '='] => do
      let a ← base64Digit a
      let b ← base64Digit b
      let c ← base64Digit c
      pure [UInt8.ofNat (4 * a + b / 16), UInt8.ofNat (16 * b + c / 4)]
  | a :: b :: c :: d :: rest => do
      let a ← base64Digit a
      let b ← base64Digit b
      let c ← base64Digit c
      let d ← base64Digit d
      let tail ← base64Quanta rest
      pure (UInt8.ofNat (4 * a + b / 16) :: UInt8.ofNat (16 * b + c / 4) ::
        UInt8.ofNat (64 * c + d) :: tail)
  | _ => none

def base64Decode : Option (List UInt8) :=
  base64Quanta (cs.filter fun c => c ≠ '\r' && c ≠ '\n')

def hexDigit : Option ℕ :=
  if c.isDigit then some (c.toNat - 48)
  else if 'A' ≤ c ∧ c ≤ 'F' then some (c.toNat - 55)
  else if 'a' ≤ c ∧ c ≤ 'f' then some (c.toNat - 87)
  else none

/-- `qDecode`. -/
def qDecode : List Char → Option (List UInt8)
  | [] => some []
  | '_' :: rest => (qDecode rest).map (32 :: ·)
  | '=' :: a :: b :: rest => do
      let a ← hexDigit a
      let b ← hexDigit b
      let tail ← qDecode rest
      pure (UInt8.ofNat (16 * a + b) :: tail)
  | c :: rest =>
    if c ≠ '=' ∧ ((' ' ≤ c ∧ c ≤ '~') ∨ c = '\n' ∨ c = '\r' ∨ c = '\t') then
      (qDecode rest).map (UInt8.ofNat c.toNat :: ·)
    else none

/-- Case folding as far as ASCII is concerned: two signs beyond it fold to
letters. -/
def foldASCII : Char :=
  if c = '\u017f' then 's' else if c = '\u212a' then 'k' else c.toLower

/-- The three charsets `WordDecoder` knows. -/
def convert (charset : Text) (content : List UInt8) : Option Text := do
  let cs ← charset.mapM id
  let name := String.ofList (cs.map foldASCII)
  if name = "utf-8" then some (text content)
  else if name = "iso-8859-1" then some (content.map fun b => some (Char.ofNat b.toNat))
  else if name = "us-ascii" then
    some (content.map fun b => some (if b < 128 then Char.ofNat b.toNat else '\ufffd'))
  else none

/-- What `decodeRFC2047Word` makes of a word. -/
inductive Word
  | plain
  | encoded (decoded : Text)
  | unknownCharset

/-- The content of an encoded word. -/
def decodeContent (encoding : Char) (content : Text) : Option (List UInt8) := do
  let cs ← content.mapM id
  if encoding = 'B' ∨ encoding = 'b' then base64Decode cs
  else if encoding = 'Q' ∨ encoding = 'q' then qDecode cs
  else none

/-- `decodeRFC2047Word`: a word that is not encoded well stays as it is. -/
def decodeWord (word : Text) : Word :=
  match word.splitOn (some '?') with
  | [[some '='], charset, [some encoding], content, [some '=']] =>
    if charset = [] then .plain
    else
      match decodeContent encoding content with
      | none => .plain
      | some bytes =>
        match convert charset bytes with
        | none => .unknownCharset
        | some t => .encoded t
  | _ => .plain

/-! ### The parts of an address -/

variable (t : Text)

/-- `skipSpace`. -/
def skipSpace : Text := t.dropWhile (Option.any isWSP)

/-- `consume`. -/
def consume : Text → Option Text
  | some d :: rest => if d = c then some rest else none
  | _ => none

/-- `consumeComment`, with the parentheses that are open besides the first. -/
def consumeComment : ℕ → Text → Option (Text × Text)
  | _, [] => none
  | depth, some '\\' :: c :: rest => (consumeComment depth rest).map fun r => (c :: r.1, r.2)
  | depth, some '(' :: rest =>
    (consumeComment (depth + 1) rest).map fun r => (some '(' :: r.1, r.2)
  | 0, some ')' :: rest => some ([], rest)
  | depth + 1, some ')' :: rest =>
    (consumeComment depth rest).map fun r => (some ')' :: r.1, r.2)
  | depth, c :: rest => (consumeComment depth rest).map fun r => (c :: r.1, r.2)

/-- The loop of `skipCFWS`; every comment takes at least one rune. -/
def skipComments : ℕ → Text → Option Text
  | 0, t => some t
  | n + 1, t =>
    match consume '(' t with
    | none => some t
    | some rest =>
      match consumeComment 0 rest with
      | none => none
      | some (_, rest) => skipComments n (skipSpace rest)

/-- `skipCFWS`. -/
def skipCFWS : Option Text := skipComments t.length (skipSpace t)

/-- The loop of `consumeQuotedString`, after the opening quote. -/
def quoted : Bool → Text → Option (List Char × Text)
  | true, some c :: rest =>
    if isVchar c || isWSP c then (quoted false rest).map fun r => (c :: r.1, r.2) else none
  | false, some c :: rest =>
    if isQtext c || isWSP c then (quoted false rest).map fun r => (c :: r.1, r.2)
    else if c = '"' then some ([], rest)
    else if c = '\\' then quoted true rest
    else none
  | _, _ => none

/-- The loop of `consumeAtom`. -/
def atomRunes (dot : Bool) : Text → Option (List Char × Text)
  | [] => some ([], [])
  | none :: _ => none
  | some c :: rest =>
    if isAtext dot c then (atomRunes dot rest).map fun r => (c :: r.1, r.2)
    else some ([], some c :: rest)

/-- `consumeAtom`. -/
def consumeAtom (dot permissive : Bool) (t : Text) : Option (List Char × Text) :=
  match atomRunes dot t with
  | none => none
  | some ([], _) => none
  | some (atom, rest) =>
    if !permissive ∧
        (atom.head? = some '.' ∨ ['.', '.'] <:+: atom ∨ atom.getLast? = some '.') then none
    else some (atom, rest)

/-- `consumeDomainLiteral`, after the opening bracket. -/
def consumeDomainLiteral : Option (List Char × Text) :=
  let dtext := t.takeWhile (Option.any isDtext)
  match t.drop dtext.length with
  | some ']' :: rest =>
    let literal := dtext.filterMap id
    if isIP literal then some ('[' :: literal ++ [']'], rest) else none
  | _ => none

/-- `consumeAddrSpec`. -/
def consumeAddrSpec : Option (String × Text) := do
  let (localPart, t) ←
    match skipSpace t with
    | some '"' :: rest =>
      match quoted false rest with
      | some ([], _) => none
      | r => r
    | t => consumeAtom true false t
  let t ← consume '@' t
  let (domain, t) ←
    match skipSpace t with
    | some '[' :: rest => consumeDomainLiteral rest
    | t => consumeAtom true false t
  pure (String.ofList (localPart ++ '@' :: domain), t)

/-- `mail.Address`. -/
structure Address where
  name : Text
  address : String
  deriving DecidableEq

/-- One word of a phrase, and whether it was encoded; with no word, what is
left of the string. -/
def consumeWord : Except Text (Text × Bool × Text) :=
  match t with
  | some '"' :: rest =>
    match quoted false rest with
    | none => .error t
    | some (word, rest) => .ok (word.map some, false, rest)
  | t =>
    match consumeAtom true true t with
    | none => .error t
    | some (atom, rest) =>
      match decodeWord (atom.map some) with
      | .plain => .ok (atom.map some, false, rest)
      | .encoded word => .ok (word, true, rest)
      | .unknownCharset => .error rest

/-- The words of a phrase after the first.  Encoded words that follow each other
are one word. -/
def phraseWords : ℕ → Text → Bool → Text → Option (Text × Text)
  | 0, phrase, _, t => some (phrase, t)
  | n + 1, phrase, wasEncoded, t =>
    match skipCFWS t with
    | none => none
    | some [] => some (phrase, [])
    | some t =>
      match consumeWord t with
      | .error t => some (phrase, t)
      | .ok (word, isEncoded, t) =>
        let phrase :=
          if wasEncoded && isEncoded then phrase ++ word else phrase ++ some ' ' :: word
        phraseWords n phrase isEncoded t

/-- `consumePhrase`. -/
def consumePhrase : Option (Text × Text) :=
  match skipSpace t with
  | [] => some ([], [])
  | t =>
    match consumeWord t with
    | .error _ => none
    | .ok (word, isEncoded, rest) => phraseWords t.length word isEncoded rest

/-- The words of a comment, decoded; an unknown charset is an error here. -/
def commentWords (comment : Text) : Option (List Text) :=
  ((comment.splitOnP (Option.any isWSP)).filter (· ≠ [])).mapM fun word =>
    match decodeWord word with
    | .plain => some word
    | .encoded t => some t
    | .unknownCharset => none

/-- `consumeDisplayNameComment`, where there is a comment. -/
def consumeDisplayNameComment : Option (Text × Text) :=
  match consume '(' t with
  | none => some ([], t)
  | some rest => do
      let (comment, rest) ← consumeComment 0 rest
      let words ← commentWords comment
      pure ((words.intersperse [some ' ']).flatten, rest)

/-! ### Addresses -/

/-- `parseAddress`, given what to do with the members of a group. -/
def consumeAddressWith (group : Option (Text → Option (List Address × Text))) (t : Text) :
    Option (List Address × Text) :=
  let t := skipSpace t
  if t = [] then none
  else
    match consumeAddrSpec t with
    | some (spec, t) =>
      (consumeDisplayNameComment (skipSpace t)).map fun (name, t) => ([⟨name, spec⟩], t)
    | none => do
        let (name, t) ← if t.head? = some (some '<') then some ([], t) else consumePhrase t
        let t := skipSpace t
        match group, consume ':' t with
        | some members, some t => members t
        | _, _ => do
            let t ← consume '<' t
            let (spec, t) ← consumeAddrSpec t
            let t ← consume '>' t
            pure ([⟨name, spec⟩], t)

/-- The loop of `consumeGroupList`; groups are not nested. -/
def groupMembers : ℕ → Text → Option (List Address × Text)
  | 0, _ => none
  | n + 1, t => do
      let (addrs, t) ← consumeAddressWith none t
      let t ← skipCFWS t
      match consume ';' t with
      | some t => do
          let t ← skipCFWS t
          pure (addrs, t)
      | none => do
          let t ← consume ',' t
          let (more, t) ← groupMembers n t
          pure (addrs ++ more, t)

/-- `consumeGroupList`. -/
def consumeGroupList : Option (List Address × Text) :=
  match consume ';' (skipSpace t) with
  | some t => (skipCFWS t).map fun t => ([], t)
  | none => groupMembers (t.length + 1) t

/-- `parseAddress(true)`. -/
def consumeAddress : Option (List Address × Text) :=
  consumeAddressWith (some consumeGroupList) t

/-- `mail.ParseAddress`. -/
def parseAddress : Option Address :=
  match consumeAddress t with
  | none => none
  | some (addrs, t) =>
    match skipCFWS t, addrs with
    | some [], [a] => some a
    | _, _ => none

/-- Skip the commas of empty entries. -/
def skipCommas : ℕ → Text → Text
  | 0, t => t
  | n + 1, t =>
    match consume ',' t with
    | none => t
    | some t => skipCommas n (skipSpace t)

/-- The loop of `parseAddressList`. -/
def addressList : ℕ → Text → Option (List Address)
  | 0, _ => none
  | n + 1, t => do
      let (addrs, t) ← consumeAddress (skipCommas t.length (skipSpace t))
      let t ← skipCFWS t
      if t = [] then pure addrs
      else if t.head? ≠ some (some ',') then none
      else
        let t := skipCommas t.length t
        if t = [] then pure addrs
        else do
          let more ← addressList n t
          pure (addrs ++ more)

/-- `mail.ParseAddressList`. -/
def parseAddressList : Option (List Address) := addressList (t.length + 1) t

/-! ### The two readings of one address -/

theorem skipSpace_idem : skipSpace (skipSpace t) = skipSpace t := by
  induction t with
  | nil => rfl
  | cons c t ih =>
    unfold skipSpace at ih ⊢
    by_cases h : Option.any isWSP c
    · rw [List.dropWhile_cons_of_pos h, ih]
    · rw [List.dropWhile_cons_of_neg h, List.dropWhile_cons_of_neg h]

/-- No address starts with a comma. -/
theorem consumeAddress_comma : consumeAddress (some ',' :: t) = none := rfl

/-- An address that stands alone is the only one of the list. -/
theorem parseAddressList_of_parseAddress {t : Text} {a : Address} (h : parseAddress t = some a) :
    parseAddressList t = some [a] := by
  have hspace : consumeAddress (skipSpace t) = consumeAddress t := by
    simp only [consumeAddress, consumeAddressWith, skipSpace_idem]
  have hcommas : skipCommas t.length (skipSpace t) = skipSpace t := by
    cases hlen : t.length with
    | zero => rfl
    | succ n =>
      unfold skipCommas
      rcases hc : consume ',' (skipSpace t) with - | rest
      · rfl
      · -- a list may start with commas, an address may not
        exfalso
        have hstart : skipSpace t = some ',' :: rest := by
          rcases ht : skipSpace t with - | ⟨- | d, tail⟩
          · rw [ht] at hc
            cases hc
          · rw [ht] at hc
            cases hc
          · rw [ht] at hc
            simp only [consume] at hc
            split_ifs at hc with hd
            cases hc
            rw [hd]
        rw [parseAddress, ← hspace, hstart, consumeAddress_comma] at h
        cases h
  unfold parseAddress at h
  rw [parseAddressList, addressList, hcommas, hspace]
  rcases hc : consumeAddress t with - | ⟨addrs, rest⟩
  · rw [hc] at h
    cases h
  · rw [hc] at h
    dsimp only at h ⊢
    rcases hs : skipCFWS rest with - | ⟨- | ⟨c, rest'⟩⟩
    · rw [hs] at h
      cases h
    · rw [hs] at h
      obtain - | ⟨b, - | ⟨c, more⟩⟩ := addrs
      · cases h
      · cases h
        simp [hs]
      · cases h
    · rw [hs] at h
      cases h

end NetMail
