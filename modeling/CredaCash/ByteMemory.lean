import CredaCash.ByteFormat

/-! Bytes in memory, and the numbers that are read and written there. -/

namespace BoundedReader

/-- The memory from some address on. -/
abbrev Memory := ℕ → UInt8

namespace Memory

/-- Some bytes, from an offset on. -/
def bytes (m : Memory) (o n : ℕ) : List UInt8 := (List.range n).map fun k => m (o + k)

/-- The number in some bytes, the least significant byte first. -/
def read (m : Memory) (o n : ℕ) : ℕ := leNat (m.bytes o n)

/-- Write the lowest bytes of a number. -/
def write (m : Memory) (o n v : ℕ) : Memory := fun a => if o ≤ a ∧ a < o + n then UInt8.ofNat (v / 256^(a - o)) else m a

variable {m m' : Memory} {o o' n n' k v : ℕ}

lemma bytes_succ (m : Memory) (o n : ℕ) : m.bytes o (n+1) = m o :: m.bytes (o+1) n := by
  rw [bytes, List.range_succ_eq_map, List.map_cons, List.map_map, Nat.add_zero, bytes]
  congr 1
  apply List.map_congr_left
  intro k _
  exact congrArg m (Nat.add_right_comm o k 1)

@[simp] lemma length_bytes (m : Memory) (o n : ℕ) : (m.bytes o n).length = n := by simp [bytes]

lemma read_lt (m : Memory) (o n : ℕ) : m.read o n < 256^n := by
  have h := leNat_lt (m.bytes o n)
  rwa [length_bytes] at h

lemma read_succ (m : Memory) (o n : ℕ) : m.read o (n+1) = (m o).toNat + 256 * m.read (o+1) n := by
  rw [read, bytes_succ, leNat, read]

lemma bytes_congr (h : ∀ a, o ≤ a → a < o + n → m a = m' a) : m.bytes o n = m'.bytes o n := by
  apply List.map_congr_left
  intro k hk
  rw [List.mem_range] at hk
  exact h _ (Nat.le_add_right o k) (by omega)

lemma read_congr (h : ∀ a, o ≤ a → a < o + n → m a = m' a) : m.read o n = m'.read o n := by
  rw [read, bytes_congr h, read]

lemma write_of_not (h : ¬(o ≤ k ∧ k < o + n)) (v : ℕ) : m.write o n v k = m k := if_neg h

/-- What is read elsewhere stays. -/
lemma read_write_of_disjoint (h : o' + n' ≤ o ∨ o + n ≤ o') (v : ℕ) : (m.write o n v).read o' n' = m.read o' n' := by
  apply read_congr
  intro a ha ha'
  exact write_of_not (by omega) v

/-- A byte of the number that is read. -/
lemma read_div (hk : k < n) : UInt8.ofNat (m.read o n / 256^k) = m (o + k) := by
  induction k generalizing o n with
  | zero =>
    obtain ⟨n, rfl⟩ := Nat.exists_eq_add_of_lt hk
    rw [Nat.zero_add, read_succ, Nat.pow_zero, Nat.div_one]
    change _ = m o
    apply UInt8.toNat_inj.1
    have hlt := (m o).toNat_lt
    rw [UInt8.toNat_ofNat']
    omega
  | succ k ih =>
    obtain ⟨n, rfl⟩ := Nat.exists_eq_add_of_lt hk
    have hlt := (m o).toNat_lt
    have hdiv : m.read o (k + 1 + n + 1) / 256^(k+1) = m.read (o + 1) (k + 1 + n) / 256^k := by
      rw [read_succ, Nat.pow_succ', ← Nat.div_div_eq_div_mul]
      congr 1
      omega
    rw [hdiv, ih (by omega)]
    congr 1
    omega

/-- Writing what is there changes nothing. -/
lemma write_read (m : Memory) (o n : ℕ) : m.write o n (m.read o n) = m := by
  funext a
  by_cases h : o ≤ a ∧ a < o + n
  · rw [write, if_pos h, read_div (by omega), Nat.add_sub_cancel' h.1]
  · exact write_of_not h _

/-- Only the lowest bytes of a number are read. -/
lemma read_mod (m : Memory) (o n k : ℕ) : m.read o (n + k) % 256^n = m.read o n := by
  induction n generalizing o with
  | zero => simp [read, bytes, leNat, Nat.mod_one]
  | succ n ih =>
    have hlt := (m o).toNat_lt
    have hdiv : ((m o).toNat + 256 * m.read (o+1) (n + k)) / 256 = m.read (o+1) (n + k) := by omega
    rw [Nat.succ_add, read_succ, read_succ, ← ih, Nat.pow_succ', Nat.mod_mul, hdiv]
    omega

lemma read_write (m : Memory) (o : ℕ) (h : v < 256^n) : (m.write o n v).read o n = v := by
  induction n generalizing m o v with
  | zero =>
    rw [Nat.pow_zero] at h
    simp [read, bytes, leNat]
    omega
  | succ n ih =>
    have hdiv : v / 256 < 256^n := Nat.div_lt_of_lt_mul (by rwa [← Nat.pow_succ'])
    have hbyte : (m.write o (n+1) v o).toNat = v % 256 := by simp [write]
    have hrest : (m.write o (n+1) v).read (o+1) n = (m.write (o+1) n (v / 256)).read (o+1) n := by
      apply read_congr
      intro a ha ha'
      have hexp : a - o = a - (o + 1) + 1 := by omega
      rw [write, if_pos ⟨by omega, by omega⟩, write, if_pos ⟨ha, ha'⟩, Nat.div_div_eq_div_mul, ← Nat.pow_succ', hexp]
    rw [read_succ, hbyte, hrest, ih _ _ hdiv]
    omega

/-- A number that keeps the high bytes changes only the low ones. -/
lemma write_add_high (m : Memory) (o k : ℕ) (h : v < 256^n) :
    m.write o (n + k) (v + 256^n * (m.read o (n + k) / 256^n)) = m.write o n v := by
  funext a
  by_cases hlow : o ≤ a ∧ a < o + n
  · obtain ⟨j, hj⟩ := Nat.exists_eq_add_of_lt (show a - o < n by omega)
    have hpow : 256^n = 256^(a - o) * (256 * 256^j) := by
      rw [← Nat.pow_succ', ← Nat.pow_add]
      congr 1
    rw [write, if_pos ⟨hlow.1, by omega⟩, write, if_pos hlow]
    generalize m.read o (n + k) / 256^n = high
    rw [hpow, Nat.mul_assoc, Nat.add_mul_div_left _ _ (Nat.pow_pos (by decide)), Nat.mul_assoc]
    apply UInt8.toNat_inj.1
    rw [UInt8.toNat_ofNat', UInt8.toNat_ofNat']
    exact Nat.add_mul_mod_self_left _ 256 _
  · rw [write_of_not hlow, write]
    by_cases hhigh : o ≤ a ∧ a < o + (n + k)
    · have hpow : 256^(a - o) = 256^n * 256^(a - o - n) := by
        rw [← Nat.pow_add]
        congr 1
        omega
      rw [if_pos hhigh, hpow, ← Nat.div_div_eq_div_mul, Nat.add_mul_div_left _ _ (Nat.pow_pos (by decide)),
        Nat.div_eq_of_lt h, Nat.zero_add, Nat.div_div_eq_div_mul, ← hpow, read_div (by omega), Nat.add_sub_cancel' hhigh.1]
    · exact if_neg hhigh

end Memory
end BoundedReader
