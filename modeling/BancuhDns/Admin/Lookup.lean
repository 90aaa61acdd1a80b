import BancuhDns.Admin
import BancuhDns.Handler
import BancuhDns.IpAddr.RoundTrip

/-!
# The admin pages look up what the handler wrote

The handler files a query under an address that it finds by looking at bits; the admin
pages find it by way of a text. The two come to the same (`BancuhDns.lookupIp_eq`).

An IPv4 address, and an IPv6 address whose text does not begin with `::ffff:`, are
parsed back from what was printed. An address that stands for an IPv4 one is printed as
`::ffff:` and that one, which is parsed back in its turn. That leaves the addresses
that begin with a run of zeroes and a group `ffff` and do not stand for an IPv4 one:
what is left of their text has too few groups to be an address, and nothing in it
stands for the missing ones (`BancuhDns.parse_eq_none_of_writeSegments_eq`).
-/

namespace BancuhDns

open Numeral

/-- What begins with a group does not begin with a colon. -/
theorem writeGroups_cons_ne_colon {sep : Char} {radix n : ℕ} {groups : List ℕ} {t u : Text}
    (hradix : 1 < radix) (hradix' : radix ≤ 16) :
    writeGroups sep radix (n :: groups) ++ t ≠ ':' :: u := by
  intro h
  obtain ⟨c, l, hl⟩ := List.exists_cons_of_ne_nil
    (Nat.toDigits_ne_nil : Nat.toDigits radix n ≠ [])
  obtain ⟨d, hd, hc⟩ := exists_digitChar_of_mem_toDigits hradix
    (hl ▸ List.mem_cons_self : c ∈ Nat.toDigits radix n)
  have hcolon : ∀ d < 16, Nat.digitChar d ≠ ':' := by decide
  rw [writeGroups, hl, List.cons_append, List.cons_append] at h
  exact hcolon d (by omega) (hc.symm.trans (List.cons.inj h).1)

/-- **A text that begins with `::ffff:`** is that of a run of zeroes, a group `ffff` and some
groups, which are what is left of it. -/
theorem exists_run_of_writeSegments_eq {segments : List ℕ} {rest : Text}
    (hlen : segments.length = 8) (hlt : ∀ n ∈ segments, n < 65536)
    (h : writeSegments segments = "::ffff:".toList ++ rest) :
    ∃ groups, groups ≠ [] ∧ rest = writeGroups ':' 16 groups ∧ 1 < (zeroes segments).len ∧
      segments = List.replicate (zeroes segments).len 0 ++ 0xffff :: groups := by
  rw [writeSegments] at h
  split_ifs at h with hrun
  · set head := segments.take (zeroes segments).start with hhead'
    set tail := segments.drop ((zeroes segments).start + (zeroes segments).len) with htail
    have hsplit : segments = head ++ (List.replicate (zeroes segments).len 0 ++ tail) :=
      (isRun_zeroes segments).eq_append
    -- the run of zeroes is at the start
    rcases hhead : head with _ | ⟨m, head'⟩
    · rw [hhead] at h hsplit
      have htext : writeGroups ':' 16 tail = "ffff".toList ++ ':' :: rest :=
        (List.cons.inj (List.cons.inj h).2).2
      rcases hcons : tail with _ | ⟨n, groups⟩
      · rw [hcons] at htext
        cases htext
      · rw [hcons] at htext hsplit
        rw [writeGroups_cons] at htext
        have hcolon := (notMem_toDigits n).2
        rcases groups with _ | ⟨m, groups⟩
        · -- without another group there is no colon
          rw [writeTail, List.flatMap_nil, List.append_nil] at htext
          exact absurd (by rw [htext]; simp) hcolon
        · rw [writeTail_cons] at htext
          obtain ⟨hdigits, hrest⟩ := append_cons_inj hcolon (by decide) htext
          have hn : n < 65536 := hlt n (by rw [hsplit]; simp)
          -- the group is read back from its digits
          have hread : readGroup (Nat.toDigits 16 n ++ []) = some (n, []) :=
            readGroup_toDigits hn (by simp)
          have hffff : readGroup "ffff".toList = some (0xffff, []) := by decide
          rw [List.append_nil, hdigits, hffff] at hread
          obtain rfl : 0xffff = n := (Prod.mk.inj (Option.some.inj hread)).1
          exact ⟨_, List.cons_ne_nil _ _, hrest.symm, hrun, hsplit⟩
    · rw [hhead] at h
      exact absurd h (writeGroups_cons_ne_colon (by decide) (by decide))
  · obtain ⟨n, groups, rfl⟩ := List.exists_cons_of_length_pos (by omega : 0 < segments.length)
    rw [← List.append_nil (writeGroups ':' 16 (n :: groups))] at h
    exact absurd h (writeGroups_cons_ne_colon (by decide) (by decide))

/-- **What is left of a text that begins with `::ffff:`** is no address: it is some groups,
fewer than eight of them. -/
theorem parse_eq_none_of_writeSegments_eq {segments : List ℕ} {rest : Text}
    (hlen : segments.length = 8) (hlt : ∀ n ∈ segments, n < 65536)
    (h : writeSegments segments = "::ffff:".toList ++ rest) : IpAddr.parse rest = none := by
  obtain ⟨groups, -, rfl, hrun, hsplit⟩ := exists_run_of_writeSegments_eq hlen hlt h
  have hsum := congrArg List.length hsplit
  rw [hlen, List.length_append, List.length_replicate, List.length_cons] at hsum
  refine parse_writeGroups_of_length_lt (by omega) fun n hn => hlt n ?_
  rw [hsplit]
  exact List.mem_append_right _ (List.mem_cons_of_mem _ hn)

/-- An IPv4 address is shown as it is. -/
theorem parse_normalizeIp_v4 (bits : BitVec 32) (port : UInt16) :
    IpAddr.parse (Admin.normalizeIp ⟨.v4 bits, port⟩) = some (.v4 bits) := by
  have hstrip : stripPrefix "::ffff:".toList (IpAddr.v4 bits).display = none := by
    by_contra hsome
    obtain ⟨rest, hrest⟩ := Option.ne_none_iff_exists'.mp hsome
    have htext := stripPrefix_eq_some_iff.mp hrest
    obtain ⟨a, b, c, d, hoctets, -⟩ := Ipv4Addr.exists_octets bits
    rw [IpAddr.display, Ipv4Addr.display, hoctets,
      ← List.append_nil (writeGroups '.' 10 [a, b, c, d])] at htext
    exact writeGroups_cons_ne_colon (by decide) (by decide) htext
  simp only [Admin.normalizeIp, hstrip, Option.getD_none, IpAddr.parse_display_v4]

/-- An IPv6 address that stands for an IPv4 one is shown as that one. -/
theorem parse_normalizeIp_mapped {bits : BitVec 128} {ipv4 : BitVec 32} (port : UInt16)
    (h : Ipv6Addr.toIpv4Mapped bits = some ipv4) :
    IpAddr.parse (Admin.normalizeIp ⟨.v6 bits, port⟩) = some (.v4 ipv4) := by
  have hstrip : stripPrefix "::ffff:".toList (IpAddr.v6 bits).display =
      some (IpAddr.v4 ipv4).display :=
    stripPrefix_eq_some_iff.mpr (by simp only [IpAddr.display, Ipv6Addr.display, h])
  simp only [Admin.normalizeIp, hstrip, Option.getD_some, IpAddr.parse_display_v4]

/-- **Any other IPv6 address** is shown as it is, unless its text begins with `::ffff:`;
then what is shown is no address. -/
theorem parse_normalizeIp_v6 {bits : BitVec 128} (port : UInt16)
    (h : Ipv6Addr.toIpv4Mapped bits = none) :
    IpAddr.parse (Admin.normalizeIp ⟨.v6 bits, port⟩) =
      if startsWith "::ffff:".toList (writeSegments (Ipv6Addr.segments bits)) then none
      else some (.v6 bits) := by
  have hdisplay : (IpAddr.v6 bits).display = writeSegments (Ipv6Addr.segments bits) := by
    rw [IpAddr.display, Ipv6Addr.display, h]
  rcases hstrip : stripPrefix "::ffff:".toList (IpAddr.v6 bits).display with _ | rest
  · have hstarts : ¬startsWith "::ffff:".toList (writeSegments (Ipv6Addr.segments bits)) := by
      rw [← hdisplay]
      exact fun hstarts => by rw [stripPrefix, if_pos hstarts] at hstrip; cases hstrip
    simp only [Admin.normalizeIp, hstrip, Option.getD_none, IpAddr.parse_display_v6 h,
      if_neg hstarts]
  · have hstarts : startsWith "::ffff:".toList (writeSegments (Ipv6Addr.segments bits)) := by
      rw [← hdisplay]
      by_contra hnot
      rw [stripPrefix, if_neg hnot] at hstrip
      cases hstrip
    have hparse : IpAddr.parse rest = none := parse_eq_none_of_writeSegments_eq
      (length_places _ _ _) (fun n hn => lt_of_mem_places (by decide) hn)
      (hdisplay ▸ stripPrefix_eq_some_iff.mp hstrip)
    simp only [Admin.normalizeIp, hstrip, Option.getD_some, hparse, if_pos hstarts]

/-- An IPv6 address that does not stand for an IPv4 one is looked up as it is. -/
theorem lookupIp_v6 {bits : BitVec 128} (port : UInt16)
    (h : Ipv6Addr.toIpv4Mapped bits = none) : Admin.lookupIp ⟨.v6 bits, port⟩ = .v6 bits := by
  rw [Admin.lookupIp, parse_normalizeIp_v6 port h]
  split_ifs <;> rfl

/-- The pages look a client up where its queries are filed. -/
theorem lookupIp_eq_normalizeIp (addr : SocketAddr) :
    Admin.lookupIp addr = normalizeIp addr := by
  obtain ⟨ip, port⟩ := addr
  cases ip with
  | v4 bits =>
    rw [Admin.lookupIp, parse_normalizeIp_v4]
    rfl
  | v6 bits =>
    rcases h : Ipv6Addr.toIpv4Mapped bits with _ | ipv4
    · rw [lookupIp_v6 port h]
      simp only [normalizeIp, h]
    · rw [Admin.lookupIp, parse_normalizeIp_mapped port h]
      simp only [normalizeIp, h, Option.getD_some]

/-- **The admin pages look up what the handler wrote.** For every client, the address that
they look up is the one that the handler files its queries under, so that the JSON and the
HTML page show the log of that address. -/
theorem lookupIp_eq (addr : SocketAddr) :
    Admin.lookupIp addr = normalizeIp addr ∧
      (∀ now store, (Admin.getLogsApi now store addr).queries =
        store.getLogs now (normalizeIp addr)) ∧
      ∀ formatTime now now' store store', Admin.getLogsHtml formatTime now now' store store' addr =
        Admin.logsPage formatTime (Admin.normalizeIp addr) (store'.activeIps now')
          (store.getLogs now (normalizeIp addr)) :=
  ⟨lookupIp_eq_normalizeIp addr,
    fun _ _ => by rw [Admin.getLogsApi, lookupIp_eq_normalizeIp],
    fun _ _ _ _ _ => by rw [Admin.getLogsHtml, lookupIp_eq_normalizeIp]⟩

/-- A printed text that begins with `::ffff:` and is that of no IPv4 address. -/
example : Admin.normalizeIp ⟨.v6 (Ipv6Addr.ofSegments [0, 0, 0, 0xffff, 1, 2, 3, 4]), 53⟩ =
    "1:2:3:4".toList := by decide

end BancuhDns
