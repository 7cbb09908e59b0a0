/-
EmailService/NetIp.lean

Addresses and networks as Go's package `net` has them: the textual notation of
addresses (`netip.ParseAddr`), of networks (`ParseCIDR`), and which addresses
lie in a network (`IPNet.Contains`).

An IPv6 address in `::ffff:0:0/96` stands for an IPv4 address, for which the
package takes it everywhere; so an `IP` is an IPv4 address or an IPv6 address
of its own.
-/
import EmailService.GoStrings

namespace NetIp

open GoStrings Nat

/-- An IPv6 address that stands for an IPv4 address. -/
def mapped (a : BitVec 128) : Bool := a.toNat / 2 ^ 32 == 0xffff

/-- An address: what `To4` makes of it, or the sixteen bytes. -/
inductive IP
  | v4 (a : BitVec 32)
  | v6 (a : BitVec 128) (native : mapped a = false)
  deriving DecidableEq

/-- `To4`. -/
def IP.to4 : IP → Option (BitVec 32)
  | .v4 a => some a
  | .v6 _ _ => none

/-- A network: an address and the number of leading bits that count. -/
inductive IPNet
  | v4 (a : BitVec 32) (ones : ℕ)
  | v6 (a : BitVec 128) (ones : ℕ)
  deriving DecidableEq

/-- The leading bits of an address. -/
def leading {w : ℕ} (a : BitVec w) (ones : ℕ) : ℕ := a.toNat / 2 ^ (w - ones)

/-- The address with the other bits cleared: `IP.Mask`. -/
def masked {w : ℕ} (a : BitVec w) (ones : ℕ) : BitVec w :=
  BitVec.ofNat w (leading a ones * 2 ^ (w - ones))

/-- `IPNet.Contains`.  A network whose number is a mapped address is a network
of IPv4 addresses. -/
def IPNet.contains : IPNet → IP → Bool
  | .v4 net ones, .v4 a => leading net ones == leading a ones
  | .v4 _ _, .v6 _ _ => false
  | .v6 net ones, .v4 a =>
    mapped (masked net ones) &&
      leading (net.truncate 32) (ones - 96) == leading a (ones - 96)
  | .v6 net ones, .v6 a _ => !mapped (masked net ones) && leading net ones == leading a ones

variable {w m n : ℕ} {a : BitVec 128}

/-- The leading bits fix those before them. -/
theorem leading_anti {a b : BitVec w} (hmn : m ≤ n) (h : leading a n = leading b n) :
    leading a m = leading b m := by
  have hsplit : 2 ^ (w - m) = 2 ^ (w - n) * 2 ^ ((w - m) - (w - n)) := by
    rw [← pow_add]
    congr 1
    omega
  unfold leading at h ⊢
  rw [hsplit, ← Nat.div_div_eq_div_mul, ← Nat.div_div_eq_div_mul, h]

theorem leading_masked (a : BitVec w) (hmn : m ≤ n) : leading (masked a n) m = leading a m := by
  refine leading_anti hmn ?_
  have hlt : leading a n * 2 ^ (w - n) < 2 ^ w :=
    (div_mul_le_self a.toNat (2 ^ (w - n))).trans_lt a.isLt
  change (masked a n).toNat / 2 ^ (w - n) = leading a n
  rw [masked, BitVec.toNat_ofNat, Nat.mod_eq_of_lt hlt, Nat.mul_div_cancel _ (by positivity)]

theorem mapped_eq (a : BitVec 128) : mapped a = (leading a 96 == 0xffff) := rfl

/-- A network whose number is a mapped address leaves that many bits. -/
theorem le_of_mapped (h : mapped (masked a n) = true) : 96 ≤ n := by
  by_contra hn
  have hlt : leading a n * 2 ^ (128 - n) < 2 ^ 128 :=
    (div_mul_le_self a.toNat (2 ^ (128 - n))).trans_lt a.isLt
  have hpow : 2 ^ (128 - n) = 2 ^ (96 - n - 1) * 2 * 2 ^ 32 := by
    rw [← pow_succ, ← pow_add]
    congr 1
    omega
  -- an even number of blocks of `2 ^ 32`, and `0xffff` is odd
  rw [mapped, masked, BitVec.toNat_ofNat, mod_eq_of_lt hlt, hpow, ← mul_assoc,
    Nat.mul_div_cancel _ (by positivity), beq_iff_eq, ← mul_assoc] at h
  generalize leading a n * 2 ^ (96 - n - 1) = blocks at h
  omega

/-- **A network of IPv6 addresses contains those with its leading bits.** -/
theorem contains_native {net : BitVec 128} {ones : ℕ} (native : mapped a = false) :
    (IPNet.v6 net ones).contains (.v6 a native) = (leading net ones == leading a ones) := by
  rw [IPNet.contains]
  by_cases h : leading net ones = leading a ones
  · rw [beq_iff_eq.mpr h, Bool.and_true, Bool.not_eq_true']
    by_contra hmapped
    rw [Bool.not_eq_false] at hmapped
    have hones := le_of_mapped hmapped
    rw [mapped_eq, leading_masked net hones, leading_anti hones h, ← mapped_eq] at hmapped
    rw [native] at hmapped
    cases hmapped
  · rw [beq_eq_false_iff_ne.mpr h, Bool.and_false]

/-! ### Notation -/

/-- A field of an IPv4 address: no leading zero, at most 255. -/
def octet (cs : List Char) : Option ℕ :=
  if cs ≠ [] ∧ cs.all Char.isDigit ∧ cs.length ≤ 3 ∧ (cs.head? = some '0' → cs.length = 1) then
    let n := cs.foldl (fun n c => 10 * n + (c.toNat - '0'.toNat)) 0
    if n ≤ 255 then some n else none
  else none

/-- `parseIPv4Fields`, as one number. -/
def parseIPv4Fields (cs : List Char) : Option ℕ :=
  match (cs.splitOn '.').mapM octet with
  | some [a, b, c, d] => some (((a * 256 + b) * 256 + c) * 256 + d)
  | _ => none

def isHex (c : Char) : Bool :=
  c.isDigit || ('a' ≤ c && c ≤ 'f') || ('A' ≤ c && c ≤ 'F')

def hexValue (c : Char) : ℕ :=
  if c.isDigit then c.toNat - '0'.toNat
  else if c ≤ 'F' then c.toNat - 'A'.toNat + 10
  else c.toNat - 'a'.toNat + 10

/-- The loop of `parseIPv6`: the groups read so far, the place of the ellipsis
among them, and the rest of the text.  There is room for so many groups. -/
def parseGroups : ℕ → List ℕ → Option ℕ → List Char → Option (List ℕ × Option ℕ × List Char)
  | 0, groups, ellipsis, cs => some (groups, ellipsis, cs)
  | room + 1, groups, ellipsis, cs =>
    let digits := cs.takeWhile isHex
    let rest := cs.dropWhile isHex
    if digits = [] ∨ 4 < digits.length then none
    else
      let groups' := groups ++ [digits.foldl (fun n c => 16 * n + hexValue c) 0]
      match rest with
      | '.' :: _ =>
        -- an IPv4 address in the last two groups
        if (ellipsis = none ∧ groups.length ≠ 6) ∨ 8 < groups.length + 2 then none
        else (parseIPv4Fields cs).map fun a =>
          (groups ++ [a / 65536, a % 65536], ellipsis, [])
      | [] => some (groups', ellipsis, [])
      | [':'] => none
      | ':' :: ':' :: rest =>
        if ellipsis ≠ none then none
        else if rest = [] then some (groups', some groups'.length, [])
        else parseGroups room groups' (some groups'.length) rest
      | ':' :: rest => parseGroups room groups' ellipsis rest
      | _ => none

/-- The eight groups, with zeros in the place of the ellipsis. -/
def expand : List ℕ × Option ℕ × List Char → Option (List ℕ)
  | (groups, none, []) => if groups.length = 8 then some groups else none
  | (groups, some i, []) =>
    if groups.length < 8 then
      some (groups.take i ++ List.replicate (8 - groups.length) 0 ++ groups.drop i)
    else none
  | _ => none

/-- `parseIPv6`, without zones, which `ParseCIDR` refuses. -/
def parseIPv6 (cs : List Char) : Option (BitVec 128) :=
  let groups := match cs with
    | [':', ':'] => some (List.replicate 8 0)
    | ':' :: ':' :: rest => (parseGroups 8 [] (some 0) rest).bind expand
    | _ => (parseGroups 8 [] none cs).bind expand
  groups.map fun gs => BitVec.ofNat 128 (gs.foldl (fun n g => 65536 * n + g) 0)

/-- The number of leading ones, at most `most`. -/
def parseOnes (most : ℕ) (cs : List Char) : Option ℕ :=
  if cs ≠ [] ∧ cs.all Char.isDigit then
    let n := cs.foldl (fun n c => 10 * n + (c.toNat - '0'.toNat)) 0
    if n ≤ most then some n else none
  else none

/-- `ParseCIDR`: the first `.` or `:` says which kind of address it is. -/
def parseCIDR (s : String) : Option IPNet :=
  (cut s '/').bind fun (addr, mask) =>
    match addr.toList.find? fun c => c ∈ ['.', ':', '%'] with
    | some '.' => (parseIPv4Fields addr.toList).bind fun a =>
      (parseOnes 32 mask.toList).map fun ones => .v4 (BitVec.ofNat 32 a) ones
    | some ':' => (parseIPv6 addr.toList).bind fun a =>
      (parseOnes 128 mask.toList).map fun ones => .v6 a ones
    | _ => none

example : parseCIDR "192.0.2.0/24" = some (.v4 0xc0000200#32 24) := by decide +kernel
example : parseCIDR "2001:db8::ffff:1.2.3.4/32" =
    some (.v6 0x20010db8000000000000ffff01020304#128 32) := by decide +kernel

end NetIp
