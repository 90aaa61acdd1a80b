import BancuhDns.Handler

/-!
# What the rate limiter counts together

Masked to a prefix, an address keeps its family and the bits of the prefix, and loses
the others. So two addresses have the same key when they are of the same family and
agree on the prefix (`BancuhDns.maskIp_exact_iff`).

A prefix of length zero is what this fails for, and all it fails for: the mask is then
shifted by the whole width of the address, which is a panic in a debug build and no
shift at all in a release build, where every address is its own key.
-/

namespace BancuhDns

namespace IpAddr

/-- The number of bits of an address. -/
def width : IpAddr → ℕ
  | .v4 _ => 32
  | .v6 _ => 128

/-- The bits of an address, the highest first. -/
def bit : IpAddr → ℕ → Bool
  | .v4 bits => bits.getMsbD
  | .v6 bits => bits.getMsbD

/-- The prefix length for the family of an address. -/
def prefixLen (ipv4Prefix ipv6Prefix : UInt8) : IpAddr → UInt8
  | .v4 _ => ipv4Prefix
  | .v6 _ => ipv6Prefix

/-- Two addresses of one family. -/
def SameFamily : IpAddr → IpAddr → Prop
  | .v4 _, .v4 _ => True
  | .v6 _, .v6 _ => True
  | _, _ => False

end IpAddr

/-- The amount by which `mask_ip` shifts, when it does. -/
def shiftAmount (ip : IpAddr) (ipv4Prefix ipv6Prefix : UInt8) : Option ℕ :=
  let len := (ip.prefixLen ipv4Prefix ipv6Prefix).toNat
  if ip.width ≤ len then none else some (ip.width - len)

/-- **Masking keeps exactly the prefix**, in both builds: it yields an address of the same
family with the first bits of the given one and zeroes after them, and does not shift by
the width of a word. -/
structure MasksExactly (ipv4Prefix ipv6Prefix : UInt8) (ip : IpAddr) : Prop where
  masked : ∀ profile, ∃ key, maskIp profile ip ipv4Prefix ipv6Prefix = some key ∧
    key.SameFamily ip ∧ ∀ i < ip.width,
      key.bit i = (decide (i < min (ip.prefixLen ipv4Prefix ipv6Prefix).toNat ip.width) && ip.bit i)
  shift_lt : ∀ amount ∈ shiftAmount ip ipv4Prefix ipv6Prefix, amount < ip.width

/-- **Two addresses share a key exactly when they share the prefix**, in both builds. -/
def SharesByPrefix (ipv4Prefix ipv6Prefix : UInt8) (ip ip' : IpAddr) : Prop :=
  ∀ profile, (∃ key, maskIp profile ip ipv4Prefix ipv6Prefix = some key ∧
      maskIp profile ip' ipv4Prefix ipv6Prefix = some key) ↔
    ip.SameFamily ip' ∧
      ∀ i < min (ip.prefixLen ipv4Prefix ipv6Prefix).toNat ip.width, ip.bit i = ip'.bit i

/-! ### One word -/

section Word

variable {profile : Profile} {w : ℕ} {bits bits' key : BitVec w} {ipPrefix : UInt8}

theorem shl_of_lt {amount : ℕ} (h : amount < w) :
    shl profile bits amount = some (bits <<< amount) := by
  unfold shl
  exact if_pos h

theorem shl_debug_of_le {amount : ℕ} (h : w ≤ amount) : shl .debug bits amount = none := by
  unfold shl
  exact if_neg (not_lt.mpr h)

/-- A prefix of some length is masked by a shift, or not at all. -/
theorem maskBits_of_pos (h : 0 < ipPrefix.toNat) :
    maskBits profile bits ipPrefix =
      some (bits &&& BitVec.allOnes w <<< (w - ipPrefix.toNat)) := by
  rw [maskBits]
  split_ifs with hfull
  · rw [Nat.sub_eq_zero_of_le hfull, BitVec.shiftLeft_zero, BitVec.and_allOnes]
  · rw [shl_of_lt (by omega)]
    rfl

/-- The bits of a masked word. -/
theorem getMsbD_mask (bits : BitVec w) (n i : ℕ) (hi : i < w) :
    (bits &&& BitVec.allOnes w <<< (w - n)).getMsbD i =
      (decide (i < min n w) && bits.getMsbD i) := by
  rw [BitVec.getMsbD_and, BitVec.getMsbD_shiftLeft, BitVec.getMsbD_allOnes, Bool.and_comm]
  have hiff : i + (w - n) < w ↔ i < min n w := by omega
  simp only [hiff]

theorem mask_eq_iff (n : ℕ) :
    bits &&& BitVec.allOnes w <<< (w - n) = bits' &&& BitVec.allOnes w <<< (w - n) ↔
      ∀ i < min n w, bits.getMsbD i = bits'.getMsbD i := by
  constructor
  · intro h i hi
    have hbit := congrArg (BitVec.getMsbD · i) h
    simpa only [getMsbD_mask bits n i (by omega), getMsbD_mask bits' n i (by omega),
      decide_eq_true hi, Bool.true_and] using hbit
  · intro h
    refine BitVec.eq_of_getMsbD_eq fun i hi => ?_
    rw [getMsbD_mask _ n i hi, getMsbD_mask _ n i hi]
    by_cases hlt : i < min n w
    · rw [h i hlt]
    · simp only [hlt, decide_false, Bool.false_and]

/-- A prefix of length zero is shifted out of the word. -/
theorem maskBits_debug_zero (hw : 0 < w) (h : ipPrefix.toNat = 0) :
    maskBits .debug bits ipPrefix = none := by
  rw [maskBits, if_neg (by omega), shl_debug_of_le (by omega)]
  rfl

end Word

/-! ### Addresses -/

/-- The first `n` bits of an address, and zeroes after them. -/
def IpAddr.keep (n : ℕ) : IpAddr → IpAddr
  | .v4 bits => .v4 (bits &&& BitVec.allOnes 32 <<< (32 - n))
  | .v6 bits => .v6 (bits &&& BitVec.allOnes 128 <<< (128 - n))

section Addresses

variable {profile : Profile} {ipv4Prefix ipv6Prefix : UInt8} {ip ip' key : IpAddr}

theorem bit_keep (ip : IpAddr) (n i : ℕ) (hi : i < ip.width) :
    (ip.keep n).bit i = (decide (i < min n ip.width) && ip.bit i) := by
  cases ip with
  | v4 bits => exact getMsbD_mask bits n i hi
  | v6 bits => exact getMsbD_mask bits n i hi

theorem sameFamily_keep (ip : IpAddr) (n : ℕ) : (ip.keep n).SameFamily ip := by
  cases ip <;> trivial

theorem keep_eq_iff (n : ℕ) (h : ip.SameFamily ip') :
    ip.keep n = ip'.keep n ↔ ∀ i < min n ip.width, ip.bit i = ip'.bit i := by
  cases ip <;> cases ip'
  · exact IpAddr.v4.injEq _ _ ▸ mask_eq_iff n
  · exact h.elim
  · exact h.elim
  · exact IpAddr.v6.injEq _ _ ▸ mask_eq_iff n

theorem prefixLen_eq_of_sameFamily (h : ip.SameFamily ip') :
    ip'.prefixLen ipv4Prefix ipv6Prefix = ip.prefixLen ipv4Prefix ipv6Prefix := by
  cases ip <;> cases ip' <;> first | rfl | exact h.elim

theorem sameFamily_of_common (h : key.SameFamily ip) (h' : key.SameFamily ip') :
    ip.SameFamily ip' := by
  cases key <;> cases ip <;> cases ip' <;> trivial

/-- A prefix of some length is kept. -/
theorem maskIp_of_pos (h : 0 < (ip.prefixLen ipv4Prefix ipv6Prefix).toNat) :
    maskIp profile ip ipv4Prefix ipv6Prefix =
      some (ip.keep (ip.prefixLen ipv4Prefix ipv6Prefix).toNat) := by
  cases ip with
  | v4 bits => exact congrArg (Option.map IpAddr.v4) (maskBits_of_pos h)
  | v6 bits => exact congrArg (Option.map IpAddr.v6) (maskBits_of_pos h)

/-- A prefix of length zero makes a debug build panic. -/
theorem maskIp_debug_zero (h : (ip.prefixLen ipv4Prefix ipv6Prefix).toNat = 0) :
    maskIp .debug ip ipv4Prefix ipv6Prefix = none := by
  cases ip with
  | v4 bits => exact congrArg (Option.map IpAddr.v4) (maskBits_debug_zero (by decide) h)
  | v6 bits => exact congrArg (Option.map IpAddr.v6) (maskBits_debug_zero (by decide) h)

/-- The family of a key is that of the address. -/
theorem sameFamily_of_maskIp (h : maskIp profile ip ipv4Prefix ipv6Prefix = some key) :
    key.SameFamily ip := by
  cases ip <;> obtain ⟨masked, -, rfl⟩ := Option.map_eq_some_iff.mp h <;> trivial

/-- **When masking keeps exactly the prefix.** -/
theorem masksExactly_iff :
    MasksExactly ipv4Prefix ipv6Prefix ip ↔ 0 < ip.prefixLen ipv4Prefix ipv6Prefix := by
  rw [UInt8.lt_iff_toNat_lt, UInt8.toNat_zero]
  constructor
  · rintro ⟨hmasked, -⟩
    by_contra hzero
    obtain ⟨key, hkey, -⟩ := hmasked .debug
    rw [maskIp_debug_zero (by omega)] at hkey
    cases hkey
  · intro hpos
    refine ⟨fun profile => ⟨_, maskIp_of_pos hpos, sameFamily_keep ip _, fun i hi =>
      bit_keep ip _ i hi⟩, fun amount hamount => ?_⟩
    obtain ⟨hlt, hamount⟩ := Option.ite_none_left_eq_some.mp hamount
    rw [← Option.some.inj hamount]
    omega

/-- **When two addresses share a key exactly when they share the prefix.** -/
theorem sharesByPrefix_iff :
    SharesByPrefix ipv4Prefix ipv6Prefix ip ip' ↔
      (ip.SameFamily ip' → 0 < ip.prefixLen ipv4Prefix ipv6Prefix) := by
  rw [UInt8.lt_iff_toNat_lt, UInt8.toNat_zero]
  constructor
  · intro hshares hfamily
    by_contra hzero
    -- they share the prefix of length zero, but a debug build has no key for them
    have hbits : ∀ i < min (ip.prefixLen ipv4Prefix ipv6Prefix).toNat ip.width,
        ip.bit i = ip'.bit i := fun i hi => absurd hi (by omega)
    obtain ⟨key, hkey, -⟩ := (hshares .debug).mpr ⟨hfamily, hbits⟩
    rw [maskIp_debug_zero (by omega)] at hkey
    cases hkey
  · intro hpos profile
    constructor
    · rintro ⟨key, hkey, hkey'⟩
      have hfamily := sameFamily_of_common (sameFamily_of_maskIp hkey) (sameFamily_of_maskIp hkey')
      have hlen : ip'.prefixLen ipv4Prefix ipv6Prefix = ip.prefixLen ipv4Prefix ipv6Prefix :=
        prefixLen_eq_of_sameFamily hfamily
      rw [maskIp_of_pos (hpos hfamily)] at hkey
      rw [maskIp_of_pos (by rw [hlen]; exact hpos hfamily), hlen] at hkey'
      exact ⟨hfamily, (keep_eq_iff _ hfamily).mp (Option.some.inj (hkey.trans hkey'.symm))⟩
    · rintro ⟨hfamily, hbits⟩
      have hlen : ip'.prefixLen ipv4Prefix ipv6Prefix = ip.prefixLen ipv4Prefix ipv6Prefix :=
        prefixLen_eq_of_sameFamily hfamily
      refine ⟨_, maskIp_of_pos (hpos hfamily), ?_⟩
      rw [maskIp_of_pos (by rw [hlen]; exact hpos hfamily), hlen, (keep_eq_iff _ hfamily).mpr hbits]

end Addresses

/-- **What the rate limiter counts together, when.** Masking keeps exactly the prefix of an
address when the prefix length of its family is not zero, and in no other case. Two clients
share a key exactly when they share the prefix, whenever they are not of one family with a
prefix length of zero, and in no other case. -/
theorem maskIp_exact_iff (ipv4Prefix ipv6Prefix : UInt8) :
    (∀ ip : IpAddr, MasksExactly ipv4Prefix ipv6Prefix ip ↔
        0 < ip.prefixLen ipv4Prefix ipv6Prefix) ∧
      ∀ addr addr' : SocketAddr,
        SharesByPrefix ipv4Prefix ipv6Prefix (normalizeIp addr) (normalizeIp addr') ↔
          ((normalizeIp addr).SameFamily (normalizeIp addr') →
            0 < (normalizeIp addr).prefixLen ipv4Prefix ipv6Prefix) :=
  ⟨fun _ => masksExactly_iff, fun _ _ => sharesByPrefix_iff⟩

/-- **A prefix of length zero.** For 192.168.1.100 a debug build panics, and a release
build leaves the address as it is. -/
theorem maskIp_exact_zero :
    ¬∀ (ipv4Prefix ipv6Prefix : UInt8) (ip : IpAddr), MasksExactly ipv4Prefix ipv6Prefix ip := by
  intro h
  obtain ⟨key, hkey, -⟩ := (h 0 48 (.v4 0xC0A80164)).masked .debug
  have hpanics : maskIp .debug (.v4 0xC0A80164) 0 48 = none := by decide
  rw [hpanics] at hkey
  cases hkey

/-- The release build. -/
example : maskIp .release (.v4 0xC0A80164) 0 48 = some (.v4 0xC0A80164) := by decide

end BancuhDns
