import BancuhDns.Admin.Lookup

/-!
# The address that is shown

Both pages show a client the address whose log they show, and what they show is the text
with the prefix `::ffff:` stripped. For an address that stands for an IPv4 one that is the
IPv4 address. But other addresses have texts that begin with it: those with a run of zeroes
at the start that is left out of the text, a group `ffff` after it, and more groups after
that. Their log is found, since the lookup falls back to the address itself; what is shown
is some groups, which are not an address at all (`BancuhDns.shown_iff`).

Which run of zeroes a text leaves out is a matter of the other runs: it is the first of the
longest ones (`BancuhDns.zeroes_replicate_append`).
-/

namespace BancuhDns

open Numeral

/-! ### The longest run -/

/-- The run that ends at a zero. -/
def Span.grow (current : Span) (i : ℕ) : Span :=
  ⟨if current.len = 0 then i else current.start, current.len + 1⟩

@[simp] theorem Span.len_grow (current : Span) (i : ℕ) :
    (current.grow i).len = current.len + 1 := rfl

theorem zeroesFrom_cons_zero (i : ℕ) (current longest : Span) (segments : List ℕ) :
    zeroesFrom i current longest (0 :: segments) = zeroesFrom (i + 1) (current.grow i)
      (if longest.len < current.len + 1 then current.grow i else longest) segments :=
  if_pos rfl

theorem zeroesFrom_cons_of_ne {segment : ℕ} (h : segment ≠ 0) (i : ℕ) (current longest : Span)
    (segments : List ℕ) : zeroesFrom i current longest (segment :: segments) =
      zeroesFrom (i + 1) ⟨0, 0⟩ longest segments :=
  if_neg h

/-- The scan never gives up a run for a shorter one. -/
theorem len_le_zeroesFrom (segments : List ℕ) (i : ℕ) (current longest : Span) :
    longest.len ≤ (zeroesFrom i current longest segments).len := by
  induction segments generalizing i current longest with
  | nil => exact le_rfl
  | cons segment segments ih =>
    by_cases hzero : segment = 0
    · rw [hzero, zeroesFrom_cons_zero]
      refine le_trans ?_ (ih _ _ _)
      split_ifs with hlonger
      · exact hlonger.le
      · exact le_rfl
    · rw [zeroesFrom_cons_of_ne hzero]
      exact ih _ _ _

/-- **No run of zeroes is longer** than what the scan finds. The run at the start of what is
left goes on from the one that ends where the scan is. -/
theorem le_len_zeroesFrom {segments : List ℕ} {i : ℕ} {current longest : Span}
    (h : current.len ≤ longest.len) :
    (∀ m, List.replicate m 0 <+: segments →
      current.len + m ≤ (zeroesFrom i current longest segments).len) ∧
    ∀ m, List.replicate m 0 <:+: segments → m ≤ (zeroesFrom i current longest segments).len := by
  induction segments generalizing i current longest with
  | nil =>
    refine ⟨fun m hm => ?_, fun m hm => ?_⟩
    · obtain rfl : m = 0 := by simpa using hm
      exact h
    · obtain rfl : m = 0 := by simpa using hm
      exact Nat.zero_le _
  | cons segment segments ih =>
    -- a run is at the start of what is left, or further on
    suffices hsuffices : (∀ m, List.replicate m 0 <+: segment :: segments →
        current.len + m ≤ (zeroesFrom i current longest (segment :: segments)).len) ∧
        ∀ m, List.replicate m 0 <:+: segments →
          m ≤ (zeroesFrom i current longest (segment :: segments)).len by
      refine ⟨hsuffices.1, fun m hm => ?_⟩
      rcases List.infix_cons_iff.mp hm with hm | hm
      · exact (Nat.le_add_left _ _).trans (hsuffices.1 m hm)
      · exact hsuffices.2 m hm
    by_cases hzero : segment = 0
    · rw [hzero, zeroesFrom_cons_zero]
      have hgrown : (current.grow i).len ≤
          (if longest.len < current.len + 1 then current.grow i else longest).len := by
        split_ifs with hlonger
        · exact le_rfl
        · exact not_lt.mp hlonger
      obtain ⟨hcurrent, hruns⟩ := ih (i := i + 1) hgrown
      refine ⟨fun m hm => ?_, hruns⟩
      rcases m with _ | m
      · exact (Nat.le_succ _).trans (hcurrent 0 (List.nil_prefix))
      · rw [List.replicate_succ] at hm
        have hle := hcurrent m (List.cons_prefix_cons.mp hm).2
        rw [Span.len_grow] at hle
        omega
    · rw [zeroesFrom_cons_of_ne hzero]
      refine ⟨fun m hm => ?_, (ih (i := i + 1) (Nat.zero_le _)).2⟩
      rcases m with _ | m
      · exact h.trans (len_le_zeroesFrom _ _ _ _)
      · rw [List.replicate_succ] at hm
        exact absurd (List.cons_prefix_cons.mp hm).1.symm hzero

/-- **The first of the longest runs is kept**: the scan ends with what it has found when no
run ahead is longer. -/
theorem zeroesFrom_eq_longest {segments : List ℕ} {i : ℕ} {current longest : Span}
    (hcurrent : ∀ m, List.replicate m 0 <+: segments → current.len + m ≤ longest.len)
    (hruns : ∀ m, List.replicate m 0 <:+: segments → m ≤ longest.len) :
    zeroesFrom i current longest segments = longest := by
  induction segments generalizing i current with
  | nil => rfl
  | cons segment segments ih =>
    have htail : ∀ m, List.replicate m 0 <:+: segments → m ≤ longest.len := fun m hm =>
      hruns m (List.infix_cons hm)
    by_cases hzero : segment = 0
    · have hone : current.len + 1 ≤ longest.len := hcurrent 1 (by simp [hzero])
      rw [hzero, zeroesFrom_cons_zero, if_neg (not_lt.mpr hone)]
      refine ih (fun m hm => ?_) htail
      have hle := hcurrent (m + 1) (by
        rw [List.replicate_succ, hzero]
        exact List.cons_prefix_cons.mpr ⟨rfl, hm⟩)
      rw [Span.len_grow]
      omega
    · rw [zeroesFrom_cons_of_ne hzero]
      refine ih (fun m hm => ?_) htail
      rw [Nat.zero_add]
      exact htail m hm.isInfix

/-- A run of zeroes at the start is scanned first. -/
theorem zeroesFrom_replicate_append {x : ℕ} (hx : x ≠ 0) (rest : List ℕ) (k n : ℕ) :
    zeroesFrom n ⟨0, n⟩ ⟨0, n⟩ (List.replicate k 0 ++ x :: rest) =
      zeroesFrom (n + k + 1) ⟨0, 0⟩ ⟨0, n + k⟩ rest := by
  induction k generalizing n with
  | zero => exact zeroesFrom_cons_of_ne hx n _ _ rest
  | succ k ih =>
    have hgrow : Span.grow ⟨0, n⟩ n = ⟨0, n + 1⟩ := by
      rw [Span.grow]
      split_ifs with hn
      · exact congrArg (Span.mk · (n + 1)) hn
      · rfl
    rw [List.replicate_succ, List.cons_append, zeroesFrom_cons_zero, hgrow,
      if_pos (Nat.lt_succ_self n), ih, Nat.add_right_comm n 1 k, Nat.add_assoc n k 1]

/-- **The run at the start is the one that is left out** when no other is longer. -/
theorem zeroes_replicate_append {x k : ℕ} (hx : x ≠ 0) {rest : List ℕ}
    (h : ¬List.replicate (k + 1) 0 <:+: rest) :
    zeroes (List.replicate k 0 ++ x :: rest) = ⟨0, k⟩ := by
  have hruns : ∀ m, List.replicate m 0 <:+: rest → m ≤ k := by
    intro m hm
    by_contra hlt
    have hsplit : List.replicate m 0 =
        List.replicate (k + 1) 0 ++ List.replicate (m - (k + 1)) 0 := by
      rw [← List.replicate_add]
      exact congrArg (List.replicate · 0) (by omega)
    exact h ((hsplit ▸ List.prefix_append _ _ : _ <+: _).isInfix.trans hm)
  rw [zeroes, zeroesFrom_replicate_append hx, Nat.zero_add, zeroesFrom_eq_longest]
  · intro m hm
    rw [Nat.zero_add]
    exact hruns m hm.isInfix
  · exact hruns

/-- When it is left out no other is longer. -/
theorem not_infix_of_len_zeroes {x k : ℕ} {rest : List ℕ}
    (h : (zeroes (List.replicate k 0 ++ x :: rest)).len = k) :
    ¬List.replicate (k + 1) 0 <:+: rest := by
  intro hruns
  have hsuffix : rest <:+: List.replicate k 0 ++ x :: rest :=
    ((List.suffix_cons x rest).trans (List.suffix_append _ _)).isInfix
  have hle := (le_len_zeroesFrom (i := 0) (Nat.le_refl (Span.mk 0 0).len)).2 (k + 1)
    (hruns.trans hsuffix)
  rw [← zeroes, h] at hle
  omega

/-! ### Addresses that look mapped -/

/-- **Segments whose text begins with `::ffff:`**: two zeroes or more, a segment `ffff`, and
more segments, without a longer run of zeroes among them. -/
def LooksMapped (segments : List ℕ) : Prop :=
  ∃ k rest, 1 < k ∧ rest ≠ [] ∧ segments = List.replicate k 0 ++ 0xffff :: rest ∧
    ¬List.replicate (k + 1) 0 <:+: rest

theorem startsWith_writeSegments_iff {segments : List ℕ} (hlen : segments.length = 8)
    (hlt : ∀ n ∈ segments, n < 65536) :
    startsWith "::ffff:".toList (writeSegments segments) ↔ LooksMapped segments := by
  rw [startsWith, List.isPrefixOf_iff_prefix]
  constructor
  · rintro ⟨text, htext⟩
    obtain ⟨groups, hne, -, hrun, hsplit⟩ :=
      exists_run_of_writeSegments_eq hlen hlt htext.symm
    exact ⟨_, groups, hrun, hne, hsplit, not_infix_of_len_zeroes (by rw [← hsplit])⟩
  · rintro ⟨k, rest, hk, hne, rfl, hnot⟩
    obtain ⟨m, groups, rfl⟩ := List.exists_cons_of_ne_nil hne
    have hffff : Nat.toDigits 16 0xffff = "ffff".toList := by decide
    refine ⟨writeGroups ':' 16 (m :: groups), ?_⟩
    rw [writeSegments, zeroes_replicate_append (by decide) hnot, if_pos hk, List.take_zero,
      Nat.zero_add, List.drop_left' List.length_replicate, writeGroups_cons 0xffff, writeTail_cons,
      hffff]
    rfl

/-- **The page shows the address whose log it shows**: the text is that of the address. -/
structure Shows (addr : SocketAddr) (ip : IpAddr) : Prop where
  /-- The JSON page. -/
  api : ∀ now store, IpAddr.parse (Admin.getLogsApi now store addr).ip = some ip ∧
    (Admin.getLogsApi now store addr).queries = store.getLogs now ip
  /-- The HTML page, which prints the same text. -/
  html : ∀ formatTime now now' store store',
    Admin.getLogsHtml formatTime now now' store store' addr =
      Admin.logsPage formatTime (Admin.getLogsApi now store addr).ip (store'.activeIps now')
        (store.getLogs now ip)

/-- What is shown is an address exactly when it is the one that is looked up. -/
theorem exists_shows_iff (addr : SocketAddr) :
    (∃ ip, Shows addr ip) ↔ (IpAddr.parse (Admin.normalizeIp addr)).isSome := by
  rw [Option.isSome_iff_exists]
  constructor
  · rintro ⟨ip, hshows⟩
    exact ⟨ip, (hshows.api 0 .new).1⟩
  · rintro ⟨ip, hparse⟩
    have hlookup : Admin.lookupIp addr = ip := by
      rw [Admin.lookupIp, hparse]
      rfl
    refine ⟨ip, fun now store => ⟨hparse, ?_⟩, fun formatTime now now' store store' => ?_⟩
    · rw [Admin.getLogsApi, hlookup]
    · rw [Admin.getLogsHtml, Admin.getLogsApi, hlookup]

/-- **When a page shows the address whose log it shows**: unless the client has an IPv6
address that does not stand for an IPv4 one and looks as if it did. -/
theorem shown_iff (addr : SocketAddr) :
    (∃ ip, Shows addr ip) ↔
      ∀ bits, addr.ip = .v6 bits → Ipv6Addr.toIpv4Mapped bits = none →
        ¬LooksMapped (Ipv6Addr.segments bits) := by
  rw [exists_shows_iff]
  obtain ⟨ip, port⟩ := addr
  cases ip with
  | v4 bits =>
    rw [parse_normalizeIp_v4]
    refine ⟨fun _ bits' hbits => ?_, fun _ => rfl⟩
    cases hbits
  | v6 bits =>
    rcases hmapped : Ipv6Addr.toIpv4Mapped bits with _ | ipv4
    · have hstarts : startsWith "::ffff:".toList (writeSegments (Ipv6Addr.segments bits)) ↔
          LooksMapped (Ipv6Addr.segments bits) :=
        startsWith_writeSegments_iff (length_places _ _ _) fun n hn =>
          lt_of_mem_places (by decide) hn
      rw [parse_normalizeIp_v6 port hmapped]
      constructor
      · intro hsome bits' hbits _ hlooks
        obtain rfl := IpAddr.v6.inj hbits
        rw [if_pos (hstarts.mpr hlooks)] at hsome
        cases hsome
      · intro h
        rw [if_neg fun hpos => h bits rfl hmapped (hstarts.mp hpos)]
        rfl
    · rw [parse_normalizeIp_mapped port hmapped]
      refine ⟨fun _ bits' hbits hnone => ?_, fun _ => rfl⟩
      obtain rfl := IpAddr.v6.inj hbits
      rw [hmapped] at hnone
      cases hnone

/-- **A client from `::ffff:1:2:3:4`** is shown `1:2:3:4`. -/
theorem shown_looksMapped : ¬∀ addr : SocketAddr, ∃ ip, Shows addr ip := by
  intro h
  obtain ⟨ip, hshows⟩ := h ⟨.v6 (Ipv6Addr.ofSegments [0, 0, 0, 0xffff, 1, 2, 3, 4]), 53⟩
  have htext : Admin.normalizeIp ⟨.v6 (Ipv6Addr.ofSegments [0, 0, 0, 0xffff, 1, 2, 3, 4]), 53⟩ =
      "1:2:3:4".toList := by decide
  have hnone : IpAddr.parse "1:2:3:4".toList = none := by decide
  have hsome := (hshows.api 0 .new).1
  rw [Admin.getLogsApi, htext, hnone] at hsome
  cases hsome

end BancuhDns
