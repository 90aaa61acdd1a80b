import BancuhDns.QueryLog

/-!
# The query log refines its history

The store keeps one queue for each address and forgets as it goes. What a reader is
shown is nonetheless a function of the history of inserts for the address alone: of
its last 1000 entries, those that are not older than ten minutes. The clock read
under the lock never goes back; the stamps of the entries may be in any order.
-/

namespace BancuhDns

/-- What a reader is shown, from the queue of the address. -/
theorem getLogs_insertAll (now : ℤ) (ip : IpAddr) (calls : List Insert) :
    (insertAll calls).getLogs now ip =
      (queueOf (callsFor ip calls)).filter fun e => now - maxAge ≤ e.queryTime := by
  rw [QueryLogStore.getLogs, lookup_insertAll]
  split_ifs with h
  · rw [h]
    rfl
  · rfl

/-- **Inserts for other addresses are not seen**, wherever they stand. -/
theorem getLogs_callsFor (now : ℤ) (ip : IpAddr) (calls : List Insert) :
    (insertAll (callsFor ip calls)).getLogs now ip = (insertAll calls).getLogs now ip := by
  have hidem : callsFor ip (callsFor ip calls) = callsFor ip calls :=
    List.filter_eq_self.mpr fun c hc => by simpa using (mem_callsFor.mp hc).2
  rw [getLogs_insertAll, getLogs_insertAll, hidem]

/-- **The retention of a queue**, under a clock that never goes back. -/
theorem queueOf_retains {calls : List Insert} {now : ℤ}
    (hclock : calls.Pairwise fun c c' => c.now ≤ c'.now) (hnow : ∀ c ∈ calls, c.now ≤ now) :
    Window.Retains QueryLog.queryTime maxPerIp (now - maxAge) (calls.map Insert.log)
      (queueOf calls) := by
  have hcutoffs : (calls.map Insert.push).Pairwise fun e e' => e.1 ≤ e'.1 :=
    List.pairwise_map.mpr (hclock.imp fun h => Int.sub_le_sub_right h maxAge)
  have hlast : ∀ e ∈ calls.map Insert.push, e.1 ≤ now - maxAge := fun e he => by
    obtain ⟨c, hc, rfl⟩ := List.mem_map.mp he
    exact Int.sub_le_sub_right (hnow c hc) maxAge
  rw [← map_snd_push]
  exact Window.contents_retains maxPerIp_pos hcutoffs hlast

/-- **The query log refines its history.** Under a clock that never goes back, the
entries shown for an address are, in the order they were inserted, those among the
last 1000 inserted for it that are not older than ten minutes. They are the same
with the inserts for other addresses left out, or with more of them made. And no
queue has more than 1000 entries. -/
theorem getLogs_refines_history {calls : List Insert} {now : ℤ} (ip : IpAddr)
    (hclock : calls.Pairwise fun c c' => c.now ≤ c'.now) (hnow : ∀ c ∈ calls, c.now ≤ now) :
    (insertAll calls).getLogs now ip =
        ((history ip calls).rtake maxPerIp).filter (fun e => now - maxAge ≤ e.queryTime) ∧
      (∀ calls' : List Insert, callsFor ip calls' = callsFor ip calls →
        (insertAll calls').getLogs now ip = (insertAll calls).getLogs now ip) ∧
      ∀ ip' entries, (insertAll calls).logs.lookup ip' = some entries →
        entries.length ≤ maxPerIp := by
  refine ⟨?_, fun calls' hcalls => ?_, fun ip' entries hentries => ?_⟩
  · have hretains := queueOf_retains (hclock.sublist (callsFor_sublist ip calls))
      fun c hc => hnow c (mem_callsFor.mp hc).1
    rw [getLogs_insertAll, history]
    exact hretains.filter_eq
  · rw [← getLogs_callsFor now ip calls', hcalls, getLogs_callsFor]
  · rw [lookup_insertAll] at hentries
    split_ifs at hentries
    obtain rfl := Option.some.inj hentries
    exact Window.length_contents_le _ maxPerIp_pos _

/-- Two entries of one address, the first stamped later than the second, and one of
another address in between. -/
def unsortedInserts : List Insert :=
  [⟨0, .v4 1, ⟨5, ['a'], ['f']⟩⟩, ⟨7, .v4 2, ⟨6, ['b'], ['f']⟩⟩, ⟨8, .v4 1, ⟨1, ['c'], ['f']⟩⟩]

theorem getLogs_refines_history_unsorted :
    (insertAll unsortedInserts).getLogs (maxAge + 3) (.v4 1) = [⟨5, ['a'], ['f']⟩] ∧
      (insertAll unsortedInserts).getLogs (maxAge + 3) (.v4 1) =
        ((history (.v4 1) unsortedInserts).rtake maxPerIp).filter
          fun e => maxAge + 3 - maxAge ≤ e.queryTime :=
  ⟨by decide, (getLogs_refines_history (.v4 1) (by decide) (by decide)).1⟩

end BancuhDns
