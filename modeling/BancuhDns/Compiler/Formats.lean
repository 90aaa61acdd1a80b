import BancuhDns.Compiler.Capture
import BancuhDns.Compiler.Compile

/-!
# Two formats, one reading

A hosts line is a domains line with an address in front of it. The hosts expression
captures what the domains expression captures of the rest of the line, as long as the
rest is short enough to be read from its start (`BancuhDns.hosts_eq_domains`): there the
whitespace after the address is left out of the stem, and the longest stem is the same.

Without a stem in the rest of the line, the hosts expression can still find one that
begins with whitespace; but what it captures then comes to nothing.
-/

namespace BancuhDns

section

variable {ip ws d : Text} (hip : IsQuad ip) (hne : ws ≠ []) (hws : ∀ c ∈ ws, isWhitespace c)
  (hhead : ∀ c ∈ d.head?, isWhitespace c = false)

include hip hne hws hhead

/-- With a stem at the start of the rest, a hosts line is read there. -/
theorem hostFirst_of_stemAt {x y : Text} (hstem : StemAt d x y) :
    HostFirst (ip ++ (ws ++ d)) [] ip ws d := by
  refine ⟨⟨rfl, hip, hne, hws, x, y, hstem⟩, fun _ _ _ _ _ => Nat.zero_le _, ?_⟩
  rintro q' ws' r' ⟨hsplit, hq', hne', hws', -⟩
  rw [List.nil_append] at hsplit
  -- the address is the same, and the whitespace cannot reach into the rest
  obtain rfl := hip.eq_of_append hq' ⟨rfl, hne, hws⟩ ⟨rfl, hne', hws'⟩ hsplit
  obtain ⟨u, rfl, -⟩ := exists_append_of_head? hws' hhead (List.append_cancel_left hsplit)
  simp

omit hne hhead in
/-- Without one, what is captured of a hosts line begins with whitespace. -/
theorem isWhitespace_head?_of_hostAt {before q ws' r : Text}
    (hno : ∀ b v x y, d = b ++ v → ¬StemAt v x y) (h : HostAt (ip ++ (ws ++ d)) before q ws' r) :
    ∃ c ∈ r.head?, isWhitespace c := by
  obtain ⟨hsplit, -, hne', hws', x, y, hstem⟩ := h
  have hsplit' : (ip ++ ws) ++ d = (before ++ q ++ ws') ++ r := by simpa using hsplit
  rcases List.append_eq_append_iff.mp hsplit' with ⟨u, -, hu⟩ | ⟨u, hu, hr⟩
  · exact absurd hstem (hno u r x y hu)
  · rcases u with _ | ⟨c, u⟩
    · exact absurd hstem (hno [] r x y hr.symm)
    · refine ⟨c, by rw [hr]; rfl, ?_⟩
      -- what is captured begins in the whitespace: there is none in the address
      rcases List.append_eq_append_iff.mp hu with ⟨t, -, ht⟩ | ⟨t, ht, -⟩
      · exact hws c (by rw [ht]; simp)
      · obtain ⟨w, ws'', rfl⟩ := List.exists_cons_of_ne_nil hne'
        have hnot := hip.not_isWhitespace w (by rw [ht]; simp)
        rw [hws' w List.mem_cons_self] at hnot
        cases hnot

end

/-- **The hosts and the domains format agree.** A hosts line with at most 200 letters after
the whitespace that follows its address, the first of which is not whitespace, yields what a
domains line of these letters yields – whatever the crates make of a name. -/
theorem hosts_eq_domains (cr : Crates) {ip ws d : Text} (hip : IsQuad ip) (hne : ws ≠ [])
    (hws : ∀ c ∈ ws, isWhitespace c) (hlen : d.length ≤ 200) (hnl : '\n' ∉ d)
    (hhead : ∀ c ∈ d.head?, isWhitespace c = false) :
    ParseBlacklist.parse cr (ip ++ (ws ++ d)) .hosts = ParseBlacklist.parse cr d .domains := by
  refine Option.ext fun dom => ?_
  simp only [ParseBlacklist.parse, Option.mem_def, hosts_parse_eq_some_iff, parse_eq,
    Option.bind_eq_some_iff]
  rcases hm : domainCapture d with _ | m
  · -- nothing is captured of the rest, and nothing of use of the line
    refine iff_of_false ?_ (by simp)
    rintro ⟨m, hcapture, hhead', -⟩
    obtain ⟨before, q, ws', r, x, y, hfirst, ⟨hstem, -⟩, rfl⟩ :=
      hostCapture_eq_some_iff.mp hcapture
    obtain ⟨c, hc, hspace⟩ := isWhitespace_head?_of_hostAt hip hws
      (fun b v x y hd => domainCapture_eq_none_iff.mp hm b v x y hd) hfirst.toHostAt
    rw [hhead' c (by rwa [hstem.head?_eq])] at hspace
    cases hspace
  · obtain ⟨before, x, y, hat, rfl⟩ := domainCapture_eq_some_iff.mp hm
    obtain rfl := hat.before_eq_nil hlen hnl
    obtain ⟨⟨v, hv, hlongest⟩, -⟩ := hat
    rw [List.nil_append] at hv
    rw [← hv] at hlongest
    have hcapture : hostCapture (ip ++ (ws ++ d)) =
        some ⟨ip ++ ws, x ++ '.' :: tldOf y, afterTld y⟩ :=
      hostCapture_eq_some_iff.mpr ⟨[], ip, ws, d, x, y,
        hostFirst_of_stemAt hip hne hws hhead hlongest.1, hlongest, rfl⟩
    rw [hcapture]
    simp only [Option.some.injEq, exists_eq_left', hlongest.1.head?_eq]
    exact ⟨fun h => h.2, fun h => ⟨hhead, h⟩⟩

theorem hosts_eq_domains_trailing :
    ParseBlacklist.parse .lenient "0.0.0.0 \t ads.com # x".toList .hosts =
        some ⟨"ads.com".toList⟩ ∧
      ParseBlacklist.parse .lenient "ads.com # x".toList .domains = some ⟨"ads.com".toList⟩ := by
  have hdomains : ParseBlacklist.parse .lenient "ads.com # x".toList .domains =
      some ⟨"ads.com".toList⟩ := by decide
  have hip : IsQuad "0.0.0.0".toList :=
    ⟨['0'], ['0'], ['0'], ['0'], rfl, by decide, by decide, by decide, by decide⟩
  have hne : " \t ".toList ≠ [] := by decide
  have hlen : "ads.com # x".toList.length ≤ 200 := by decide
  have hhead : ∀ c ∈ "ads.com # x".toList.head?, isWhitespace c = false := fun c hc => by
    rw [← Option.some.inj hc]
    decide
  exact ⟨(hosts_eq_domains .lenient hip hne (by decide) hlen (by decide) hhead).trans hdomains,
    hdomains⟩

end BancuhDns
