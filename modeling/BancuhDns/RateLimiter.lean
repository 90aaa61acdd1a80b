import BancuhDns.IpAddr

/-!
# The keys of the rate limiter

Queries are counted by the network that they come from: an address is masked to the
prefix length of its family. A prefix as long as the address, or longer, masks nothing;
a shorter one shifts a word of ones to the left.

How far a word can be shifted depends on the build. A shift by the width of the word or
more is a panic in a debug build; in a release build the amount is taken modulo the
width.
-/

namespace BancuhDns

/-- The two ways to build the program. -/
inductive Profile where
  | debug
  | release
  deriving DecidableEq

/-- `<<`; `none` is a panic. -/
def shl (profile : Profile) {w : ℕ} (x : BitVec w) (amount : ℕ) : Option (BitVec w) :=
  if amount < w then some (x <<< amount)
  else
    match profile with
    | .debug => none
    | .release => some (x <<< (amount % w))

/-- The branch of `mask_ip` for the addresses of a width. -/
def maskBits (profile : Profile) {w : ℕ} (bits : BitVec w) (ipPrefix : UInt8) :
    Option (BitVec w) :=
  if w ≤ ipPrefix.toNat then some bits
  else (shl profile (BitVec.allOnes w) (w - ipPrefix.toNat)).map fun mask => bits &&& mask

/-- `mask_ip`; `none` is a panic. -/
def maskIp (profile : Profile) (ip : IpAddr) (ipv4Prefix ipv6Prefix : UInt8) : Option IpAddr :=
  match ip with
  | .v4 bits => (maskBits profile bits ipv4Prefix).map IpAddr.v4
  | .v6 bits => (maskBits profile bits ipv6Prefix).map IpAddr.v6

end BancuhDns
