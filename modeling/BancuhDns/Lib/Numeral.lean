import Mathlib.Data.Nat.Digits.Defs

/-!
# Numerals, written and read back

A number is written with `Nat.toDigits` and read by a greedy scan, digit after digit,
until something that is not a digit of the radix comes up. The scan gives up when there
are more digits than it was told to take. What is written is read back
(`Numeral.scan_toDigits`), whatever comes after it.

The second half is about the same numbers as *places*: a number below `b ^ k` is the
value of its `k` places (`Numeral.ofPlaces_places`).
-/

namespace Numeral

/-! ### Digits -/

/-- The value of a digit, in the largest radix that has letters for it. -/
def digitValue (c : Char) : Option ℕ :=
  if '0' ≤ c ∧ c ≤ '9' then some (c.toNat - 48)
  else if 'a' ≤ c ∧ c ≤ 'z' then some (c.toNat - 87)
  else if 'A' ≤ c ∧ c ≤ 'Z' then some (c.toNat - 55)
  else none

/-- The value of a digit of a radix. -/
def toDigit (radix : ℕ) (c : Char) : Option ℕ := (digitValue c).filter fun d => d < radix

theorem digitValue_digitChar : ∀ d < 16, digitValue (Nat.digitChar d) = some d := by decide

theorem toDigit_digitChar {radix d : ℕ} (hradix : radix ≤ 16) (hd : d < radix) :
    toDigit radix (Nat.digitChar d) = some d := by
  rw [toDigit, digitValue_digitChar d (by omega)]
  simpa using hd

/-- What is written consists of digits. -/
theorem exists_digitChar_of_mem_toDigits {radix n : ℕ} {c : Char} (hradix : 1 < radix)
    (h : c ∈ Nat.toDigits radix n) : ∃ d < radix, c = Nat.digitChar d := by
  induction n using Nat.strong_induction_on with
  | h n ih =>
    rcases Nat.lt_or_ge n radix with hn | hn
    · rw [Nat.toDigits_of_lt_base hn, List.mem_singleton] at h
      exact ⟨n, hn, h⟩
    -- the last digit, or one of those before it
    · rw [Nat.toDigits_of_base_le hradix hn, List.mem_append, List.mem_singleton] at h
      rcases h with h | h
      · exact ih (n / radix) (Nat.div_lt_self (by omega) hradix) h
      · exact ⟨n % radix, Nat.mod_lt n (by omega), h⟩

/-- Only zero is written with a zero in front. -/
theorem head?_toDigits_eq_zero {radix n : ℕ} (hradix : 1 < radix) (hradix' : radix ≤ 16)
    (h : (Nat.toDigits radix n).head? = some '0') : n = 0 := by
  induction n using Nat.strong_induction_on with
  | h n ih =>
    rcases Nat.lt_or_ge n radix with hn | hn
    · rw [Nat.toDigits_of_lt_base hn] at h
      have hvalue := digitValue_digitChar n (by omega)
      rw [Option.some.inj h] at hvalue
      exact (Option.some.inj hvalue).symm
    · have hdiv : 0 < n / radix := Nat.div_pos hn (by omega)
      obtain ⟨c, l, hl⟩ := List.exists_cons_of_ne_nil
        (Nat.toDigits_ne_nil : Nat.toDigits radix (n / radix) ≠ [])
      rw [Nat.toDigits_of_base_le hradix hn, hl] at h
      have hzero := ih (n / radix) (Nat.div_lt_self (by omega) hradix) (by rw [hl]; exact h)
      omega

/-! ### Reading -/

/-- Read the digits at the head of a text: how many there are, the value they give, and
the text after them. More than `max` of them are too many. -/
def scan (radix max : ℕ) : ℕ → ℕ → List Char → Option (ℕ × ℕ × List Char)
  | count, value, [] => some (count, value, [])
  | count, value, c :: s =>
    match toDigit radix c with
    | some d => if max < count + 1 then none else scan radix max (count + 1) (value * radix + d) s
    | none => some (count, value, c :: s)

theorem scan_cons_digitChar {radix max count value d : ℕ} {s : List Char} (hradix : radix ≤ 16)
    (hd : d < radix) (hcount : count + 1 ≤ max) :
    scan radix max count value (Nat.digitChar d :: s) =
      scan radix max (count + 1) (value * radix + d) s := by
  rw [scan, toDigit_digitChar hradix hd]
  exact if_neg (not_lt.mpr hcount)

/-- The scan stops where there is no digit. -/
theorem scan_of_head? {radix max count value : ℕ} {s : List Char}
    (h : ∀ c ∈ s.head?, toDigit radix c = none) :
    scan radix max count value s = some (count, value, s) := by
  rcases s with _ | ⟨c, s⟩
  · rfl
  · rw [scan, h c rfl]

/-- **What is written is scanned back**, whatever comes after it. -/
theorem scan_toDigits {radix max n : ℕ} (hradix : 1 < radix) (hradix' : radix ≤ 16)
    (hlen : (Nat.toDigits radix n).length ≤ max) (s : List Char) :
    scan radix max 0 0 (Nat.toDigits radix n ++ s) =
      scan radix max (Nat.toDigits radix n).length n s := by
  -- by the last digit
  induction n using Nat.strong_induction_on generalizing s with
  | h n ih =>
    rcases Nat.lt_or_ge n radix with hn | hn
    · rw [Nat.toDigits_of_lt_base hn] at hlen ⊢
      rw [List.singleton_append, scan_cons_digitChar hradix' hn (by simpa using hlen), zero_mul,
        zero_add n]
      rfl
    · rw [Nat.toDigits_of_base_le hradix hn] at hlen ⊢
      rw [List.length_append, List.length_singleton] at hlen ⊢
      rw [List.append_assoc, ih (n / radix) (Nat.div_lt_self (by omega) hradix) (by omega),
        List.singleton_append, scan_cons_digitChar hradix' (Nat.mod_lt n (by omega)) hlen,
        Nat.div_add_mod']

/-- What a scan leaves is the end of what it was given. -/
theorem suffix_of_scan_eq_some {radix max count value count' value' : ℕ} {s rest : List Char}
    (h : scan radix max count value s = some (count', value', rest)) : rest <:+ s := by
  induction s generalizing count value with
  | nil =>
    obtain ⟨-, hrest⟩ := Prod.mk.inj (Option.some.inj h)
    exact (Prod.mk.inj hrest).2 ▸ List.suffix_rfl
  | cons c s ih =>
    rw [scan] at h
    split at h
    · split_ifs at h
      exact (ih h).trans (List.suffix_cons c s)
    · obtain ⟨-, hrest⟩ := Prod.mk.inj (Option.some.inj h)
      exact (Prod.mk.inj hrest).2 ▸ List.suffix_rfl

/-! ### Places -/

/-- The `k` last places of a number in base `b`, the highest first. -/
def places (b : ℕ) : ℕ → ℕ → List ℕ
  | 0, _ => []
  | k + 1, n => places b k (n / b) ++ [n % b]

/-- The number with the given places. -/
def ofPlaces (b : ℕ) (l : List ℕ) : ℕ := l.foldl (fun n d => n * b + d) 0

theorem ofPlaces_concat (b : ℕ) (l : List ℕ) (d : ℕ) :
    ofPlaces b (l ++ [d]) = ofPlaces b l * b + d := by
  simp [ofPlaces]

@[simp] theorem length_places (b k n : ℕ) : (places b k n).length = k := by
  induction k generalizing n with
  | zero => rfl
  | succ k ih => rw [places, List.length_append, ih, List.length_singleton]

theorem lt_of_mem_places {b k n d : ℕ} (hb : 0 < b) (h : d ∈ places b k n) : d < b := by
  induction k generalizing n with
  | zero => cases h
  | succ k ih =>
    rw [places, List.mem_append, List.mem_singleton] at h
    rcases h with h | rfl
    · exact ih h
    · exact Nat.mod_lt n hb

/-- **A number is the value of its places**, up to what they do not reach. -/
theorem ofPlaces_places (b k n : ℕ) : ofPlaces b (places b k n) = n % b ^ k := by
  induction k generalizing n with
  | zero => rw [pow_zero, Nat.mod_one]; rfl
  | succ k ih => rw [places, ofPlaces_concat, ih, Nat.pow_succ', Nat.mod_mul, mul_comm, add_comm]

end Numeral
