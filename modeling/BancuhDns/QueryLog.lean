import BancuhDns.IpAddr
import BancuhDns.Lib.Window
import Mathlib.Data.Int.Order.Basic
import Mathlib.Data.List.AList

/-!
# The query log

A queue of log entries for each address, in memory. An insert touches the queue of
its own address only: it expires entries at the front of that queue, makes room in
it and appends to it. Reading a queue, or counting the addresses heard from, does
not change anything, and leaves out what has expired since.

Instants are nanoseconds since the epoch. The clock is read under the lock, so each
operation takes the instant it reads as an argument.
-/

namespace BancuhDns

/-- `MAX_AGE`: ten minutes. -/
def maxAge : ℤ := 600 * 1000000000

/-- `MAX_PER_IP`. -/
def maxPerIp : ℕ := 1000

theorem maxPerIp_pos : 0 < maxPerIp := by decide

/-- `QueryLog`. -/
structure QueryLog where
  queryTime : ℤ
  question : Text
  answer : Text
  deriving DecidableEq

/-- `QueryLogStore`, as it is under the lock. -/
structure QueryLogStore where
  logs : AList fun _ : IpAddr => List QueryLog

namespace QueryLogStore

/-- `QueryLogStore::new`. -/
def new : QueryLogStore := ⟨∅⟩

/-- `QueryLogStore::insert`. -/
def insert (now : ℤ) (self : QueryLogStore) (ip : IpAddr) (log : QueryLog) : QueryLogStore :=
  let entries := (self.logs.lookup ip).getD []
  let cutoff := now - maxAge
  -- the loop stops at the first entry that is fresh, whatever comes after it
  let entries := entries.dropWhile fun e => e.queryTime < cutoff
  -- one entry at most makes room for one
  let entries := if maxPerIp ≤ entries.length then entries.tail else entries
  ⟨self.logs.insert ip (entries ++ [log])⟩

/-- `QueryLogStore::get_logs`. -/
def getLogs (now : ℤ) (self : QueryLogStore) (ip : IpAddr) : List QueryLog :=
  let cutoff := now - maxAge
  ((self.logs.lookup ip).map fun entries => entries.filter fun e => cutoff ≤ e.queryTime).getD []

/-- `QueryLogStore::active_ips`. -/
def activeIps (now : ℤ) (self : QueryLogStore) : ℕ :=
  let cutoff := now - maxAge
  (self.logs.entries.filter fun entry => entry.2.getLast?.any fun e => cutoff ≤ e.queryTime).length

/-! ### One insert -/

/-- **An insert pushes** on the queue of its address. -/
theorem lookup_insert_self (now : ℤ) (self : QueryLogStore) (ip : IpAddr) (log : QueryLog) :
    (self.insert now ip log).logs.lookup ip =
      some (Window.push QueryLog.queryTime maxPerIp (now - maxAge)
        ((self.logs.lookup ip).getD []) log) :=
  AList.lookup_insert self.logs

/-- The other queues stay as they are. -/
theorem lookup_insert_of_ne (now : ℤ) (self : QueryLogStore) {ip ip' : IpAddr} (log : QueryLog)
    (h : ip' ≠ ip) : (self.insert now ip log).logs.lookup ip' = self.logs.lookup ip' :=
  AList.lookup_insert_ne h

end QueryLogStore

/-! ### Sequences of inserts -/

/-- A call of `insert`, with the instant it reads under the lock. -/
structure Insert where
  now : ℤ
  ip : IpAddr
  log : QueryLog

/-- The store after some inserts. -/
def insertAll (calls : List Insert) : QueryLogStore :=
  calls.foldl (fun store c => store.insert c.now c.ip c.log) .new

@[simp] theorem insertAll_concat (calls : List Insert) (c : Insert) :
    insertAll (calls ++ [c]) = (insertAll calls).insert c.now c.ip c.log := by
  simp [insertAll]

/-- The inserts for one address. -/
def callsFor (ip : IpAddr) (calls : List Insert) : List Insert := calls.filter fun c => c.ip = ip

@[simp] theorem callsFor_append (ip : IpAddr) (calls calls' : List Insert) :
    callsFor ip (calls ++ calls') = callsFor ip calls ++ callsFor ip calls' :=
  List.filter_append calls calls'

theorem callsFor_sublist (ip : IpAddr) (calls : List Insert) :
    (callsFor ip calls).Sublist calls := List.filter_sublist

theorem mem_callsFor {ip : IpAddr} {calls : List Insert} {c : Insert} :
    c ∈ callsFor ip calls ↔ c ∈ calls ∧ c.ip = ip := by
  simp [callsFor]

/-- An insert as a push: its cutoff and its entry. -/
def Insert.push (c : Insert) : ℤ × QueryLog := (c.now - maxAge, c.log)

/-- The entries inserted for one address. -/
def history (ip : IpAddr) (calls : List Insert) : List QueryLog :=
  (callsFor ip calls).map Insert.log

theorem map_snd_push (calls : List Insert) :
    (calls.map Insert.push).map Prod.snd = calls.map Insert.log := by
  rw [List.map_map]
  rfl

/-- The queue of one address after some inserts for it. -/
def queueOf (calls : List Insert) : List QueryLog :=
  Window.contents QueryLog.queryTime maxPerIp (calls.map Insert.push)

/-- **What the store holds**: for each address inserted for, the queue of the
inserts for that address. -/
theorem lookup_insertAll (ip : IpAddr) (calls : List Insert) :
    (insertAll calls).logs.lookup ip =
      if callsFor ip calls = [] then none else some (queueOf (callsFor ip calls)) := by
  induction calls using List.reverseRecOn with
  | nil => rfl
  | append_singleton calls c ih =>
    rw [insertAll_concat, callsFor_append]
    by_cases hip : c.ip = ip
    · have hone : callsFor ip [c] = [c] := List.filter_cons_of_pos (by simpa using hip)
      have hqueue : ((insertAll calls).logs.lookup ip).getD [] = queueOf (callsFor ip calls) := by
        rw [ih]
        split_ifs with hnone
        · rw [hnone]
          rfl
        · rfl
      -- the last insert is for this address, and pushes on its queue
      rw [hone, if_neg (by simp), ← hip, QueryLogStore.lookup_insert_self, hip, hqueue, queueOf,
        queueOf, List.map_append, List.map_singleton, Window.contents_concat]
      rfl
    · have hnone : callsFor ip [c] = [] := List.filter_cons_of_neg (by simpa using hip)
      rw [hnone, List.append_nil, QueryLogStore.lookup_insert_of_ne c.now _ c.log (Ne.symm hip), ih]

end BancuhDns
