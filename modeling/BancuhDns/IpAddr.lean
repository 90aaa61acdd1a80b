import BancuhDns.Text
import BancuhDns.Lib.Numeral

/-!
# Addresses and their texts

The addresses of `std::net`, as bits, and what the standard library makes of them: the
text that `Display` prints and the parser that `FromStr` runs. Both are written out
here as the library documents and does them. What is printed parses, and parses as what
was printed: `BancuhDns.IpAddr.parse_display_v4` and, for an address that does not stand
for an IPv4 one, `BancuhDns.IpAddr.parse_display_v6`.

A parser takes the text ahead and gives, when it succeeds, what it read and the text
that it left.
-/

namespace BancuhDns

/-- `std::net::IpAddr`. -/
inductive IpAddr where
  | v4 (bits : BitVec 32)
  | v6 (bits : BitVec 128)
  deriving DecidableEq

/-- `std::net::SocketAddr`. -/
structure SocketAddr where
  ip : IpAddr
  port : UInt16
  deriving DecidableEq

/-! ### Octets and segments -/

/-- `Ipv4Addr::octets`. -/
def Ipv4Addr.octets (self : BitVec 32) : List ℕ := Numeral.places 256 4 self.toNat

/-- `Ipv4Addr::from` of octets. -/
def Ipv4Addr.ofOctets (octets : List ℕ) : BitVec 32 := .ofNat 32 (Numeral.ofPlaces 256 octets)

/-- `Ipv6Addr::octets`. -/
def Ipv6Addr.octets (self : BitVec 128) : List ℕ := Numeral.places 256 16 self.toNat

/-- `Ipv6Addr::segments`. -/
def Ipv6Addr.segments (self : BitVec 128) : List ℕ := Numeral.places 65536 8 self.toNat

/-- `Ipv6Addr::from` of segments. -/
def Ipv6Addr.ofSegments (segments : List ℕ) : BitVec 128 :=
  .ofNat 128 (Numeral.ofPlaces 65536 segments)

/-- `Ipv6Addr::to_ipv4_mapped`. -/
def Ipv6Addr.toIpv4Mapped (self : BitVec 128) : Option (BitVec 32) :=
  match octets self with
  | [0, 0, 0, 0, 0, 0, 0, 0, 0, 0, 0xff, 0xff, a, b, c, d] => some (Ipv4Addr.ofOctets [a, b, c, d])
  | _ => none

/-! ### `Display` -/

/-- Numbers with a separator between them. -/
def writeGroups (sep : Char) (radix : ℕ) : List ℕ → Text
  | [] => []
  | first :: tail => Nat.toDigits radix first ++ tail.flatMap fun n => sep :: Nat.toDigits radix n

/-- `Ipv4Addr`'s `Display`. -/
def Ipv4Addr.display (self : BitVec 32) : Text := writeGroups '.' 10 (octets self)

/-- A run of segments. -/
structure Span where
  start : ℕ
  len : ℕ
  deriving DecidableEq

/-- The scan for the longest run of zero segments, the first of them if there are more:
`i` segments have been scanned, and `current` is the run that ends there. -/
def zeroesFrom (i : ℕ) (current longest : Span) : List ℕ → Span
  | [] => longest
  | segment :: segments =>
    if segment = 0 then
      let start := if current.len = 0 then i else current.start
      let current := ⟨start, current.len + 1⟩
      zeroesFrom (i + 1) current (if longest.len < current.len then current else longest) segments
    else zeroesFrom (i + 1) ⟨0, 0⟩ longest segments

/-- The run of zero segments that the text leaves out. -/
def zeroes (segments : List ℕ) : Span := zeroesFrom 0 ⟨0, 0⟩ ⟨0, 0⟩ segments

/-- The text of segments, with a run of zeroes longer than one left out. -/
def writeSegments (segments : List ℕ) : Text :=
  let zeroes := zeroes segments
  if 1 < zeroes.len then
    writeGroups ':' 16 (segments.take zeroes.start) ++ ':' :: ':' ::
      writeGroups ':' 16 (segments.drop (zeroes.start + zeroes.len))
  else writeGroups ':' 16 segments

/-- `Ipv6Addr`'s `Display`. -/
def Ipv6Addr.display (self : BitVec 128) : Text :=
  match toIpv4Mapped self with
  | some ipv4 => "::ffff:".toList ++ Ipv4Addr.display ipv4
  | none => writeSegments (segments self)

/-- `IpAddr`'s `Display`. -/
def IpAddr.display : IpAddr → Text
  | .v4 bits => Ipv4Addr.display bits
  | .v6 bits => Ipv6Addr.display bits

/-! ### `FromStr` -/

/-- `Parser::read_given_char`. -/
def readGivenChar (target : Char) : Text → Option Text
  | [] => none
  | c :: s => if c = target then some s else none

/-- `Parser::read_separator`: what stands first has no separator before it. -/
def readSeparator {α : Type} (sep : Char) (index : ℕ) (inner : Text → Option (α × Text))
    (s : Text) : Option (α × Text) :=
  if 0 < index then (readGivenChar sep s).bind inner else inner s

/-- `Parser::read_number`, into numbers below `bound`. -/
def readNumber (radix maxDigits : ℕ) (allowZeroPrefix : Bool) (bound : ℕ) (s : Text) :
    Option (ℕ × Text) := do
  let hasLeadingZero := s.head? == some '0'
  let (digitCount, result, rest) ← Numeral.scan radix maxDigits 0 0 s
  if digitCount = 0 then none
  else if !allowZeroPrefix && hasLeadingZero && 1 < digitCount then none
  else if result < bound then some (result, rest)
  else none

/-- An octet of an IPv4 address, which has no leading zero. -/
def readOctet : Text → Option (ℕ × Text) := readNumber 10 3 false 256

/-- A group of an IPv6 address. -/
def readGroup : Text → Option (ℕ × Text) := readNumber 16 4 true 65536

/-- `Parser::read_ipv4_addr`. -/
def readIpv4Addr (s : Text) : Option (BitVec 32 × Text) := do
  let (a, s) ← readSeparator '.' 0 readOctet s
  let (b, s) ← readSeparator '.' 1 readOctet s
  let (c, s) ← readSeparator '.' 2 readOctet s
  let (d, s) ← readSeparator '.' 3 readOctet s
  return (Ipv4Addr.ofOctets [a, b, c, d], s)

/-- The groups that `read_groups` reads, whether they end with an embedded IPv4 address,
and the text that it leaves. -/
structure Groups where
  groups : List ℕ
  ipv4 : Bool
  rest : Text

/-- `read_groups`, from slot `i` on, with `slots` slots left. -/
def readGroups : (slots i : ℕ) → Text → Groups
  | 0, _, s => ⟨[], false, s⟩
  | slots + 1, i, s =>
    -- an embedded IPv4 address takes the place of two groups
    match if 0 < slots then readSeparator ':' i readIpv4Addr s else none with
    | some (ipv4, rest) => ⟨Numeral.places 65536 2 ipv4.toNat, true, rest⟩
    | none =>
      match readSeparator ':' i readGroup s with
      | some (group, rest) =>
        let tail := readGroups slots (i + 1) rest
        { tail with groups := group :: tail.groups }
      | none => ⟨[], false, s⟩

/-- `Parser::read_ipv6_addr`. -/
def readIpv6Addr (s : Text) : Option (BitVec 128 × Text) := do
  let head := readGroups 8 0 s
  if head.groups.length = 8 then return (Ipv6Addr.ofSegments head.groups, head.rest)
  -- an embedded IPv4 address may not come before the `::`
  if head.ipv4 then none
  let s ← readGivenChar ':' head.rest
  let s ← readGivenChar ':' s
  -- the `::` stands for one group of zeroes at least
  let tail := readGroups (8 - (head.groups.length + 1)) 0 s
  let zeroes := List.replicate (8 - head.groups.length - tail.groups.length) 0
  return (Ipv6Addr.ofSegments (head.groups ++ zeroes ++ tail.groups), tail.rest)

/-- `Parser::read_ip_addr`. -/
def readIpAddr (s : Text) : Option (IpAddr × Text) :=
  ((readIpv4Addr s).map fun r => (IpAddr.v4 r.1, r.2)).or
    ((readIpv6Addr s).map fun r => (IpAddr.v6 r.1, r.2))

/-- `IpAddr`'s `FromStr`: the whole text has to be read. -/
def IpAddr.parse (s : Text) : Option IpAddr :=
  (readIpAddr s).bind fun r => if r.2 = [] then some r.1 else none

end BancuhDns
