import OpenClaw.Foundation.CodePoints

/-!
# Addresses and networks

The texts that stand for an address of version 4 or 6, the network test, and the special ranges.
-/

namespace Foundation

set_option autoImplicit false

inductive IpAddress where
  | v4 (ip : BitVec 32)
  | v6 (ip : BitVec 128) (scopeId : Option CodePoints)
  deriving DecidableEq

inductive IpNetwork where
  | v4 (networkAddress : BitVec 32) (prefixlen : ℕ)
  | v6 (networkAddress : BitVec 128) (prefixlen : ℕ)

/-- The bits before the prefix length agree. -/
def IpNetwork.contains : IpNetwork → IpAddress → Bool
  | .v4 net len, .v4 ip => decide (ip >>> (32 - len) = net >>> (32 - len))
  | .v6 net len, .v6 ip _ => decide (ip >>> (128 - len) = net >>> (128 - len))
  | _, _ => false

namespace IpAddress

/-- The number with the digits, the first one on the left. -/
def ofDigits (base : ℕ) (digits : List ℕ) : ℕ := digits.foldl (fun n d => n * base + d) 0

def octets (a b c d : ℕ) : BitVec 32 := BitVec.ofNat 32 (ofDigits 256 [a, b, c, d])

def hextets (parts : List ℕ) : BitVec 128 := BitVec.ofNat 128 (ofDigits 65536 parts)

/-! ## Texts -/

def decimalDigit? (c : CodePoint) : Option ℕ :=
  if 48 ≤ c.val ∧ c.val ≤ 57 then some (c.val - 48) else none

def hexDigit? (c : CodePoint) : Option ℕ :=
  if 97 ≤ c.val ∧ c.val ≤ 102 then some (c.val - 87)
  else if 65 ≤ c.val ∧ c.val ≤ 70 then some (c.val - 55)
  else decimalDigit? c

def parseOctet (t : CodePoints) : Option ℕ :=
  if t = [] ∨ 3 < t.length ∨ (t.head? = some 48 ∧ t.length ≠ 1) then none
  else ((t.mapM decimalDigit?).map (ofDigits 10)).filter (· ≤ 255)

def parseHextet (t : CodePoints) : Option ℕ :=
  if t = [] ∨ 4 < t.length then none else (t.mapM hexDigit?).map (ofDigits 16)

def parseV4 (t : CodePoints) : Option (BitVec 32) :=
  match t.splitOn 46 with
  | [a, b, c, d] => do
    return octets (← parseOctet a) (← parseOctet b) (← parseOctet c) (← parseOctet d)
  | _ => none

/-- The parts between the colons, the last two from an address of version 4 if it ends so. -/
def colonParts (t : CodePoints) : Option (List (Option ℕ)) :=
  let parts := t.splitOn 58
  let part (p : CodePoints) : Option (Option ℕ) := if p = [] then some none else
    (parseHextet p).map some
  match parts.getLast? with
  | none => none
  | some last =>
    if 46 ∈ last then do
      let front ← parts.dropLast.mapM part
      let ip ← parseV4 last
      return front ++ [some (ip.toNat / 65536), some (ip.toNat % 65536)]
    else parts.mapM part

/-- The eight numbers: one empty part inside stands for the zeros that are missing, and an empty
part at an end must stand beside it. -/
def fillParts (parts : List (Option ℕ)) : Option (List ℕ) :=
  if parts.length < 3 ∨ 9 < parts.length then none
  else
    let inner := (parts.drop 1).dropLast
    match inner.count none with
    | 0 => if parts.length = 8 then parts.mapM id else none
    | 1 =>
      let high := parts.head?.toList ++ inner.takeWhile Option.isSome
      let low := (inner.dropWhile Option.isSome).tail ++ parts.getLast?.toList
      let trimmedHigh := if high.head? = some none then high.tail else high
      let trimmedLow := if low.getLast? = some none then low.dropLast else low
      if (high.head? = some none ∧ trimmedHigh ≠ []) ∨
          (low.getLast? = some none ∧ trimmedLow ≠ []) then none
      else if 8 ≤ trimmedHigh.length + trimmedLow.length then none
      else do
        let zeros := List.replicate (8 - (trimmedHigh.length + trimmedLow.length)) 0
        return (← trimmedHigh.mapM id) ++ zeros ++ (← trimmedLow.mapM id)
    | _ => none

def parseV6 (t : CodePoints) : Option IpAddress :=
  let addr := t.takeWhile (· ≠ 37)
  match t.dropWhile (· ≠ 37) with
  | [] => ((colonParts addr).bind fillParts).map fun parts => .v6 (hextets parts) none
  | _ :: scope =>
    if scope = [] ∨ 37 ∈ scope then none
    else ((colonParts addr).bind fillParts).map fun parts => .v6 (hextets parts) (some scope)

end IpAddress

/-- `ip_address(t)`; `none` is its `ValueError`. -/
def ipAddress (t : CodePoints) : Option IpAddress :=
  ((IpAddress.parseV4 t).map .v4).or (IpAddress.parseV6 t)

/-! ## Special ranges -/

namespace IpNetwork

def v4Net (a b c d prefixlen : ℕ) : IpNetwork := .v4 (IpAddress.octets a b c d) prefixlen

/-- The network whose address starts with the two parts and ends in zeros. -/
def v6Net (a b prefixlen : ℕ) : IpNetwork :=
  .v6 (IpAddress.hextets [a, b, 0, 0, 0, 0, 0, 0]) prefixlen

def privateV4 : List IpNetwork :=
  [v4Net 0 0 0 0 8, v4Net 10 0 0 0 8, v4Net 127 0 0 0 8, v4Net 169 254 0 0 16,
    v4Net 172 16 0 0 12, v4Net 192 0 0 0 24, v4Net 192 0 0 170 31, v4Net 192 0 2 0 24,
    v4Net 192 168 0 0 16, v4Net 198 18 0 0 15, v4Net 198 51 100 0 24, v4Net 203 0 113 0 24,
    v4Net 240 0 0 0 4, v4Net 255 255 255 255 32]

def privateV4Exceptions : List IpNetwork := [v4Net 192 0 0 9 32, v4Net 192 0 0 10 32]

def privateV6 : List IpNetwork :=
  [.v6 1 128, .v6 0 128, .v6 0xffff00000000 96,
    .v6 (IpAddress.hextets [0x64, 0xff9b, 1, 0, 0, 0, 0, 0]) 48, v6Net 0x100 0 64,
    v6Net 0x2001 0 23, v6Net 0x2001 0xdb8 32, v6Net 0x2002 0 16, v6Net 0xfc00 0 7,
    v6Net 0xfe80 0 10]

def privateV6Exceptions : List IpNetwork :=
  [.v6 (IpAddress.hextets [0x2001, 1, 0, 0, 0, 0, 0, 1]) 128,
    .v6 (IpAddress.hextets [0x2001, 1, 0, 0, 0, 0, 0, 2]) 128, v6Net 0x2001 3 32,
    .v6 (IpAddress.hextets [0x2001, 4, 0x112, 0, 0, 0, 0, 0]) 48, v6Net 0x2001 0x20 28,
    v6Net 0x2001 0x30 28]

def reservedV6 : List IpNetwork :=
  [v6Net 0 0 8, v6Net 0x100 0 8, v6Net 0x200 0 7, v6Net 0x400 0 6, v6Net 0x800 0 5,
    v6Net 0x1000 0 4, v6Net 0x4000 0 3, v6Net 0x6000 0 3, v6Net 0x8000 0 3, v6Net 0xa000 0 3,
    v6Net 0xc000 0 3, v6Net 0xe000 0 4, v6Net 0xf000 0 5, v6Net 0xf800 0 6, v6Net 0xfe00 0 9]

end IpNetwork

namespace IpAddress
open IpNetwork

def within (ip : IpAddress) (nets : List IpNetwork) : Bool := nets.any fun net => net.contains ip

/-- The address of version 4 that stands behind `::ffff:0:0/96`. -/
def ipv4Mapped : IpAddress → Option IpAddress
  | .v4 _ => none
  | .v6 ip _ => if ip >>> 32 = 0xffff#128 then some (.v4 (ip.setWidth 32)) else none

def isPrivate (ip : IpAddress) : Bool :=
  let ip := ip.ipv4Mapped.getD ip
  match ip with
  | .v4 _ => ip.within privateV4 && !ip.within privateV4Exceptions
  | .v6 _ _ => ip.within privateV6 && !ip.within privateV6Exceptions

def isLoopback : IpAddress → Bool
  | .v4 ip => (v4Net 127 0 0 0 8).contains (.v4 ip)
  | .v6 ip _ => decide (ip = 1)

def isReserved (ip : IpAddress) : Bool :=
  match ip with
  | .v4 _ => (v4Net 240 0 0 0 4).contains ip
  | .v6 _ _ => ip.within reservedV6

def isMulticast (ip : IpAddress) : Bool :=
  match ip with
  | .v4 _ => (v4Net 224 0 0 0 4).contains ip
  | .v6 _ _ => (v6Net 0xff00 0 8).contains ip

end IpAddress

end Foundation
