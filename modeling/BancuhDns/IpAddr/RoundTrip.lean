import BancuhDns.IpAddr

/-!
# Printed addresses are read back

The parser is greedy and never goes back, so what it reads of a printed address is
decided by what comes next: an octet or a group ends where there is no digit, the
groups of an IPv6 address end before a `::` or at the end of the text, and nothing is
taken for an embedded IPv4 address as long as there is no dot.

Of the run of zeroes that a text leaves out only one thing matters here, that it is one
(`BancuhDns.isRun_zeroes`).
-/

namespace BancuhDns

open Numeral

/-! ### Numbers -/

/-- **A printed number is read back.** -/
theorem readNumber_toDigits {radix maxDigits bound n : ℕ} {allowZeroPrefix : Bool} {rest : Text}
    (hradix : 1 < radix) (hradix' : radix ≤ 16) (hmax : 0 < maxDigits)
    (hdigits : n < radix ^ maxDigits) (hbound : n < bound)
    (hrest : ∀ c ∈ rest.head?, toDigit radix c = none) :
    readNumber radix maxDigits allowZeroPrefix bound (Nat.toDigits radix n ++ rest) =
      some (n, rest) := by
  have hlen := (Nat.length_toDigits_le_iff hradix hmax).mpr hdigits
  have hpos : (Nat.toDigits radix n).length ≠ 0 := Nat.length_toDigits_pos.ne'
  have hzero : ((Nat.toDigits radix n ++ rest).head? == some '0') = true →
      ¬1 < (Nat.toDigits radix n).length := fun h => by
    obtain ⟨c, l, hl⟩ := List.exists_cons_of_ne_nil
      (Nat.toDigits_ne_nil : Nat.toDigits radix n ≠ [])
    rw [hl] at h
    have hn : n = 0 := head?_toDigits_eq_zero hradix hradix' (by rw [hl]; exact beq_iff_eq.mp h)
    rw [hn, Nat.toDigits_zero]
    exact lt_irrefl 1
  rw [readNumber, scan_toDigits hradix hradix' hlen, scan_of_head? hrest]
  simp only [Option.bind_eq_bind, Option.bind_some, if_neg hpos, if_pos hbound]
  refine if_neg fun h => ?_
  simp only [Bool.and_eq_true, decide_eq_true_eq] at h
  exact hzero h.1.2 h.2

/-- Without a digit there is no number. -/
theorem readNumber_of_head? {radix maxDigits bound : ℕ} {allowZeroPrefix : Bool} {s : Text}
    (h : ∀ c ∈ s.head?, toDigit radix c = none) :
    readNumber radix maxDigits allowZeroPrefix bound s = none := by
  rw [readNumber, scan_of_head? h]
  rfl

theorem suffix_of_readNumber_eq_some {radix maxDigits bound n : ℕ} {allowZeroPrefix : Bool}
    {s rest : Text} (h : readNumber radix maxDigits allowZeroPrefix bound s = some (n, rest)) :
    rest <:+ s := by
  rw [readNumber] at h
  obtain ⟨⟨count, result, rest'⟩, hscan, h⟩ := Option.bind_eq_some_iff.mp h
  dsimp only at h
  split_ifs at h
  rw [← (Prod.mk.inj (Option.some.inj h)).2]
  exact suffix_of_scan_eq_some hscan

theorem readSeparator_succ {α : Type} (sep : Char) (i : ℕ) (inner : Text → Option (α × Text))
    (s : Text) : readSeparator sep (i + 1) inner (sep :: s) = inner s := by
  simp [readSeparator, readGivenChar]

theorem readGivenChar_of_notMem {c : Char} {s : Text} (h : c ∉ s) : readGivenChar c s = none := by
  rcases s with _ | ⟨d, s⟩
  · rfl
  · exact if_neg fun hd : d = c => h (hd ▸ List.mem_cons_self)

/-! ### IPv4 addresses -/

theorem readOctet_toDigits {n : ℕ} {rest : Text} (hn : n < 256)
    (hrest : ∀ c ∈ rest.head?, toDigit 10 c = none) :
    readOctet (Nat.toDigits 10 n ++ rest) = some (n, rest) :=
  readNumber_toDigits (by decide) (by decide) (by decide) (by omega) hn hrest

/-- The octets of an address, one by one. -/
theorem Ipv4Addr.exists_octets (self : BitVec 32) :
    ∃ a b c d, octets self = [a, b, c, d] ∧ ofOctets [a, b, c, d] = self ∧
      a < 256 ∧ b < 256 ∧ c < 256 ∧ d < 256 := by
  obtain ⟨a, b, c, d, h⟩ := List.length_eq_four.mp (length_places 256 4 self.toNat)
  have hlt : ∀ n ∈ [a, b, c, d], n < 256 := fun n hn =>
    lt_of_mem_places (b := 256) (k := 4) (by decide) (h ▸ hn)
  have hself : ofOctets [a, b, c, d] = self := by
    rw [ofOctets, ← h, ofPlaces_places]
    exact BitVec.eq_of_toNat_eq (by simp [Nat.mod_eq_of_lt self.isLt])
  exact ⟨a, b, c, d, h, hself, hlt a (by simp), hlt b (by simp), hlt c (by simp), hlt d (by simp)⟩

theorem Ipv4Addr.readIpv4Addr_display (self : BitVec 32) :
    readIpv4Addr (display self) = some (self, []) := by
  obtain ⟨a, b, c, d, hoctets, hself, ha, hb, hc, hd⟩ := exists_octets self
  have hdot : ∀ s : Text, ∀ c ∈ ('.' :: s).head?, toDigit 10 c = none := by
    rintro s c hc
    rw [← Option.some.inj hc]
    rfl
  have hend : readOctet (Nat.toDigits 10 d ++ []) = some (d, []) :=
    readOctet_toDigits hd (by simp)
  rw [List.append_nil] at hend
  rw [display, hoctets, readIpv4Addr]
  simp only [writeGroups, List.flatMap_cons, List.flatMap_nil, List.append_nil, List.cons_append,
    Option.bind_eq_bind]
  rw [readSeparator, if_neg (lt_irrefl 0), readOctet_toDigits ha (hdot _), Option.bind_some,
    readSeparator_succ, readOctet_toDigits hb (hdot _), Option.bind_some,
    readSeparator_succ, readOctet_toDigits hc (hdot _), Option.bind_some,
    readSeparator_succ, hend, Option.bind_some, hself]
  rfl

/-- **A printed IPv4 address is read back.** -/
theorem IpAddr.parse_display_v4 (bits : BitVec 32) :
    IpAddr.parse (IpAddr.v4 bits).display = some (.v4 bits) := by
  rw [parse, display, readIpAddr, Ipv4Addr.readIpv4Addr_display]
  rfl

/-- Without a dot there is no IPv4 address. -/
theorem readIpv4Addr_of_notMem {s : Text} (h : '.' ∉ s) : readIpv4Addr s = none := by
  rw [readIpv4Addr, readSeparator, if_neg (lt_irrefl 0)]
  cases ha : readOctet s with
  | none => rfl
  | some r =>
    have hdot : '.' ∉ r.2 := fun hr => h ((suffix_of_readNumber_eq_some ha).subset hr)
    simp [readSeparator, readGivenChar_of_notMem hdot]

theorem readSeparator_readIpv4Addr_of_notMem {s : Text} {i : ℕ} (h : '.' ∉ s) :
    readSeparator ':' i readIpv4Addr s = none := by
  rw [readSeparator]
  split_ifs
  · rcases s with _ | ⟨c, s⟩
    · rfl
    · rw [readGivenChar]
      split_ifs
      · exact readIpv4Addr_of_notMem fun hs => h (List.mem_cons_of_mem c hs)
      · rfl
  · exact readIpv4Addr_of_notMem h

/-! ### Groups -/

theorem readGroup_toDigits {n : ℕ} {rest : Text} (hn : n < 65536)
    (hrest : ∀ c ∈ rest.head?, toDigit 16 c = none) :
    readGroup (Nat.toDigits 16 n ++ rest) = some (n, rest) :=
  readNumber_toDigits (by decide) (by decide) (by decide) (by omega) hn hrest

/-- The text of the groups that are not the first. -/
def writeTail (groups : List ℕ) : Text := groups.flatMap fun n => ':' :: Nat.toDigits 16 n

theorem writeGroups_cons (n : ℕ) (groups : List ℕ) :
    writeGroups ':' 16 (n :: groups) = Nat.toDigits 16 n ++ writeTail groups := rfl

theorem writeTail_cons (n : ℕ) (groups : List ℕ) :
    writeTail (n :: groups) = ':' :: writeGroups ':' 16 (n :: groups) := rfl

/-- What is written in hexadecimal has neither a dot nor a colon. -/
theorem notMem_toDigits (n : ℕ) : '.' ∉ Nat.toDigits 16 n ∧ ':' ∉ Nat.toDigits 16 n := by
  have hdigit : ∀ d < 16, Nat.digitChar d ≠ '.' ∧ Nat.digitChar d ≠ ':' := by decide
  constructor <;> intro h <;>
    obtain ⟨d, hd, hc⟩ := exists_digitChar_of_mem_toDigits (by decide) h
  · exact (hdigit d hd).1 hc.symm
  · exact (hdigit d hd).2 hc.symm

theorem dot_notMem_writeTail (groups : List ℕ) : '.' ∉ writeTail groups := by
  intro h
  obtain ⟨n, -, hn⟩ := List.mem_flatMap.mp h
  rcases List.mem_cons.mp hn with hn | hn
  · exact absurd hn (by decide)
  · exact (notMem_toDigits n).1 hn

theorem dot_notMem_writeGroups (groups : List ℕ) : '.' ∉ writeGroups ':' 16 groups := by
  rcases groups with _ | ⟨n, groups⟩
  · simp [writeGroups]
  · rw [writeGroups_cons, List.mem_append, not_or]
    exact ⟨(notMem_toDigits n).1, dot_notMem_writeTail groups⟩

/-- **Where the groups of an address end**: no digit comes next, no group comes next, and
there is no dot ahead. -/
structure EndsGroups (rest : Text) : Prop where
  head : ∀ c ∈ rest.head?, toDigit 16 c = none
  group : ∀ i, readSeparator ':' i readGroup rest = none
  dot : '.' ∉ rest

theorem endsGroups_nil : EndsGroups [] :=
  ⟨by simp, fun i => by rcases i with _ | i <;> rfl, by simp⟩

theorem endsGroups_colons {s : Text} (h : '.' ∉ s) : EndsGroups (':' :: ':' :: s) := by
  have hcolon : ∀ s : Text, ∀ c ∈ (':' :: s).head?, toDigit 16 c = none := by
    rintro s c hc
    rw [← Option.some.inj hc]
    rfl
  refine ⟨hcolon _, fun i => ?_, by simpa using h⟩
  rcases i with _ | i
  · exact readNumber_of_head? (hcolon _)
  · rw [readSeparator_succ]
    exact readNumber_of_head? (hcolon s)

theorem readGroups_of_group_eq_none {slots i : ℕ} {s : Text} (hdot : '.' ∉ s)
    (h : readSeparator ':' i readGroup s = none) : readGroups slots i s = ⟨[], false, s⟩ := by
  rcases slots with _ | slots
  · rfl
  · simp only [readGroups, readSeparator_readIpv4Addr_of_notMem hdot, ite_self, h]

theorem readGroups_of_group_eq_some {slots i n : ℕ} {s rest : Text} (hdot : '.' ∉ s)
    (h : readSeparator ':' i readGroup s = some (n, rest)) :
    readGroups (slots + 1) i s =
      { readGroups slots (i + 1) rest with
        groups := n :: (readGroups slots (i + 1) rest).groups } := by
  simp only [readGroups, readSeparator_readIpv4Addr_of_notMem hdot, ite_self, h]

/-- The first of some groups is read. -/
theorem readGroup_writeGroups {n : ℕ} {groups : List ℕ} {rest : Text} (hn : n < 65536)
    (hrest : EndsGroups rest) :
    readGroup (writeGroups ':' 16 (n :: groups) ++ rest) = some (n, writeTail groups ++ rest) := by
  rw [writeGroups_cons, List.append_assoc]
  refine readGroup_toDigits hn ?_
  -- its digits end at the next colon, or where the groups end
  rcases groups with _ | ⟨m, groups⟩
  · exact hrest.head
  · intro c hc
    rw [← Option.some.inj hc]
    rfl

/-- The groups after the first one are read back. -/
theorem readGroups_writeTail {groups : List ℕ} {slots i : ℕ} {rest : Text}
    (hslots : groups.length ≤ slots) (hlt : ∀ n ∈ groups, n < 65536) (hrest : EndsGroups rest) :
    readGroups slots (i + 1) (writeTail groups ++ rest) = ⟨groups, false, rest⟩ := by
  induction groups generalizing slots i with
  | nil => exact readGroups_of_group_eq_none hrest.dot (hrest.group (i + 1))
  | cons n groups ih =>
    obtain ⟨slots, rfl⟩ := Nat.exists_eq_succ_of_ne_zero (Nat.ne_zero_of_lt hslots)
    obtain ⟨hn, hlt⟩ := List.forall_mem_cons.mp hlt
    have hdot : '.' ∉ writeTail (n :: groups) ++ rest := by
      rw [List.mem_append, not_or]
      exact ⟨dot_notMem_writeTail _, hrest.dot⟩
    have hgroup : readSeparator ':' (i + 1) readGroup (writeTail (n :: groups) ++ rest) =
        some (n, writeTail groups ++ rest) := by
      rw [writeTail_cons, List.cons_append, readSeparator_succ, readGroup_writeGroups hn hrest]
    rw [readGroups_of_group_eq_some hdot hgroup, ih (Nat.le_of_succ_le_succ hslots) hlt]

/-- **Printed groups are read back.** -/
theorem readGroups_writeGroups {groups : List ℕ} {slots : ℕ} {rest : Text}
    (hslots : groups.length ≤ slots) (hlt : ∀ n ∈ groups, n < 65536) (hrest : EndsGroups rest) :
    readGroups slots 0 (writeGroups ':' 16 groups ++ rest) = ⟨groups, false, rest⟩ := by
  rcases groups with _ | ⟨n, groups⟩
  · exact readGroups_of_group_eq_none hrest.dot (hrest.group 0)
  · obtain ⟨slots, rfl⟩ := Nat.exists_eq_succ_of_ne_zero (Nat.ne_zero_of_lt hslots)
    obtain ⟨hn, hlt⟩ := List.forall_mem_cons.mp hlt
    have hdot : '.' ∉ writeGroups ':' 16 (n :: groups) ++ rest := by
      rw [List.mem_append, not_or]
      exact ⟨dot_notMem_writeGroups _, hrest.dot⟩
    have hgroup : readSeparator ':' 0 readGroup (writeGroups ':' 16 (n :: groups) ++ rest) =
        some (n, writeTail groups ++ rest) := readGroup_writeGroups hn hrest
    rw [readGroups_of_group_eq_some hdot hgroup,
      readGroups_writeTail (Nat.le_of_succ_le_succ hslots) hlt hrest]

/-! ### The run of zeroes -/

/-- A run of zeroes of some segments. -/
def IsRun (segments : List ℕ) (span : Span) : Prop :=
  ∃ x y, segments = x ++ (List.replicate span.len 0 ++ y) ∧ x.length = span.start

/-- The scan finds a run: what it has found is one, and the run that ends at the scanned
segments is one of them. -/
theorem isRun_zeroesFrom {scanned segments : List ℕ} {current longest : Span}
    (hlongest : IsRun (scanned ++ segments) longest)
    (hcurrent : ∃ x, scanned = x ++ List.replicate current.len 0 ∧
      (current.len ≠ 0 → x.length = current.start)) :
    IsRun (scanned ++ segments) (zeroesFrom scanned.length current longest segments) := by
  induction segments generalizing scanned current longest with
  | nil => exact hlongest
  | cons segment segments ih =>
    have hsplit : scanned ++ segment :: segments = (scanned ++ [segment]) ++ segments := by simp
    have hlen : scanned.length + 1 = (scanned ++ [segment]).length := by simp
    rw [hsplit] at hlongest ⊢
    by_cases hzero : segment = 0
    · obtain ⟨x, hscanned, hx⟩ := hcurrent
      simp only [zeroesFrom, if_pos hzero]
      set grown : Span :=
        ⟨if current.len = 0 then scanned.length else current.start, current.len + 1⟩ with hgrown
      have hx' : x.length = grown.start := by
        rw [hgrown]
        split_ifs with hnone
        · simp [hscanned, hnone]
        · exact hx hnone
      have hrun : scanned ++ [segment] = x ++ List.replicate grown.len 0 := by
        rw [hscanned, hzero, List.append_assoc, hgrown, List.replicate_succ']
      rw [hlen]
      refine ih ?_ ⟨x, hrun, fun _ => hx'⟩
      by_cases hlonger : longest.len < grown.len
      · rw [if_pos hlonger]
        exact ⟨x, segments, by rw [hrun, List.append_assoc], hx'⟩
      · rw [if_neg hlonger]
        exact hlongest
    · rw [zeroesFrom, if_neg hzero, hlen]
      exact ih hlongest ⟨scanned ++ [segment], by simp, fun h => absurd rfl h⟩

/-- **What the text leaves out is a run of zeroes.** -/
theorem isRun_zeroes (segments : List ℕ) : IsRun segments (zeroes segments) := by
  have hscanned : ([] : List ℕ) = [] ++ List.replicate (Span.mk 0 0).len 0 := rfl
  have hrun : IsRun ([] ++ segments) ⟨0, 0⟩ := ⟨[], segments, rfl, rfl⟩
  exact isRun_zeroesFrom hrun ⟨[], hscanned, fun h => absurd rfl h⟩

theorem IsRun.eq_append {segments : List ℕ} {span : Span} (h : IsRun segments span) :
    segments = segments.take span.start ++
      (List.replicate span.len 0 ++ segments.drop (span.start + span.len)) := by
  obtain ⟨x, y, rfl, hx⟩ := h
  have hlen : span.start + span.len = (x ++ List.replicate span.len 0).length := by simp [hx]
  rw [hlen, ← hx, List.take_left, ← List.append_assoc, List.drop_left, List.append_assoc]

/-! ### IPv6 addresses -/

/-- What an IPv6 address without an embedded IPv4 address parses as. -/
theorem IpAddr.parse_of_notMem {s : Text} (h : '.' ∉ s) :
    IpAddr.parse s = (readIpv6Addr s).bind fun r => if r.2 = [] then some (.v6 r.1) else none := by
  rw [parse, readIpAddr, readIpv4Addr_of_notMem h]
  cases readIpv6Addr s <;> rfl

/-- All eight groups written out. -/
theorem parse_writeGroups {segments : List ℕ} (hlen : segments.length = 8)
    (hlt : ∀ n ∈ segments, n < 65536) :
    IpAddr.parse (writeGroups ':' 16 segments) = some (.v6 (Ipv6Addr.ofSegments segments)) := by
  have hgroups := readGroups_writeGroups hlen.le hlt endsGroups_nil
  rw [List.append_nil] at hgroups
  rw [IpAddr.parse_of_notMem (dot_notMem_writeGroups segments), readIpv6Addr]
  simp only [hgroups, if_pos hlen]
  rfl

/-- **Too few groups are no address.** -/
theorem parse_writeGroups_of_length_lt {groups : List ℕ} (hlen : groups.length < 8)
    (hlt : ∀ n ∈ groups, n < 65536) : IpAddr.parse (writeGroups ':' 16 groups) = none := by
  have hgroups := readGroups_writeGroups hlen.le hlt endsGroups_nil
  rw [List.append_nil] at hgroups
  rw [IpAddr.parse_of_notMem (dot_notMem_writeGroups groups), readIpv6Addr]
  simp only [hgroups, if_neg hlen.ne]
  rfl

/-- A run of zeroes left out. -/
theorem parse_colons {head tail : List ℕ} {len : ℕ} (hlen : 0 < len)
    (hsum : head.length + len + tail.length = 8) (hhead : ∀ n ∈ head, n < 65536)
    (htail : ∀ n ∈ tail, n < 65536) :
    IpAddr.parse (writeGroups ':' 16 head ++ ':' :: ':' :: writeGroups ':' 16 tail) =
      some (.v6 (Ipv6Addr.ofSegments (head ++ (List.replicate len 0 ++ tail)))) := by
  have hdot := dot_notMem_writeGroups tail
  have hdots : '.' ∉ writeGroups ':' 16 head ++ ':' :: ':' :: writeGroups ':' 16 tail := by
    simp [dot_notMem_writeGroups, hdot]
  have hfirst : readGroups 8 0
      (writeGroups ':' 16 head ++ ':' :: ':' :: writeGroups ':' 16 tail) =
        ⟨head, false, ':' :: ':' :: writeGroups ':' 16 tail⟩ :=
    readGroups_writeGroups (by omega) hhead (endsGroups_colons hdot)
  have hsecond : readGroups (8 - (head.length + 1)) 0 (writeGroups ':' 16 tail ++ []) =
      ⟨tail, false, []⟩ := readGroups_writeGroups (by omega) htail endsGroups_nil
  have hzeroes : 8 - head.length - tail.length = len := by omega
  rw [List.append_nil] at hsecond
  rw [IpAddr.parse_of_notMem hdots, readIpv6Addr]
  simp only [hfirst, if_neg (by omega : head.length ≠ 8), readGivenChar, Option.bind_eq_bind,
    Option.bind_some, if_true, Bool.false_eq_true, if_false, hsecond, hzeroes]
  rw [List.append_assoc]
  rfl

theorem parse_writeSegments {segments : List ℕ} (hlen : segments.length = 8)
    (hlt : ∀ n ∈ segments, n < 65536) :
    IpAddr.parse (writeSegments segments) = some (.v6 (Ipv6Addr.ofSegments segments)) := by
  rw [writeSegments]
  split_ifs with hrun
  · have hsplit := (isRun_zeroes segments).eq_append
    have hsum := congrArg List.length hsplit
    rw [hlen, List.length_append, List.length_append, List.length_replicate] at hsum
    rw [parse_colons (Nat.zero_lt_of_lt hrun) (by omega)
      (fun n hn => hlt n (List.mem_of_mem_take hn))
      fun n hn => hlt n (List.mem_of_mem_drop hn), ← hsplit]
  · exact parse_writeGroups hlen hlt

/-- **A printed IPv6 address is read back**, unless it stands for an IPv4 address: then
only what comes after its `::ffff:` is of interest. -/
theorem IpAddr.parse_display_v6 {bits : BitVec 128} (h : Ipv6Addr.toIpv4Mapped bits = none) :
    IpAddr.parse (IpAddr.v6 bits).display = some (.v6 bits) := by
  have hself : Ipv6Addr.ofSegments (Ipv6Addr.segments bits) = bits := by
    rw [Ipv6Addr.ofSegments, Ipv6Addr.segments, ofPlaces_places]
    exact BitVec.eq_of_toNat_eq (by simp [Nat.mod_eq_of_lt bits.isLt])
  have hparse : IpAddr.parse (writeSegments (Ipv6Addr.segments bits)) =
      some (.v6 (Ipv6Addr.ofSegments (Ipv6Addr.segments bits))) :=
    parse_writeSegments (length_places _ _ _) fun n hn => lt_of_mem_places (by decide) hn
  rw [display, Ipv6Addr.display, h]
  exact hparse.trans (by rw [hself])

end BancuhDns
