import Mathlib.Data.Nat.Find
import Mathlib.Data.Nat.ModEq
import Mathlib.Data.Option.Basic

/-! Probing around a circle of `n` slots: the slots in turn from a first one, scans that stop at some slots, and paths
that meet no free slot. -/

namespace Probing
variable {n h i j k m fuel : ℕ}

/-- The slot that lies `k` slots after `h`. -/
def slot (n h k : ℕ) : ℕ := (h + k) % n

/-- The slot to the right. -/
def next (n i : ℕ) : ℕ := if i + 1 = n then 0 else i + 1

/-- The slot to the left. -/
def prev (n i : ℕ) : ℕ := if i = 0 then n - 1 else i - 1

lemma slot_lt (hn : 0 < n) : slot n h k < n := Nat.mod_lt _ hn

@[simp] lemma slot_zero (h_lt : h < n) : slot n h 0 = h := Nat.mod_eq_of_lt h_lt

lemma slot_slot : slot n (slot n h j) k = slot n h (j + k) := by
  simp only [slot]
  rw [Nat.mod_add_mod, Nat.add_assoc]

lemma slot_add_size : slot n h (k + n) = slot n h k := by
  rw [slot, ← Nat.add_assoc, Nat.add_mod_right, slot]

lemma next_eq (h_lt : i < n) : next n i = slot n i 1 := by
  unfold next slot
  split
  · rename_i hlast
    rw [hlast, Nat.mod_self]
  · rw [Nat.mod_eq_of_lt (by omega)]

lemma next_slot (hn : 0 < n) : next n (slot n h k) = slot n h (k + 1) := by
  rw [next_eq (slot_lt hn), slot_slot]

lemma next_lt (h_lt : i < n) : next n i < n := by
  rw [next_eq h_lt]
  exact slot_lt (by omega)

lemma prev_lt (h_lt : i < n) : prev n i < n := by
  unfold prev
  split <;> omega

lemma next_prev (h_lt : i < n) : next n (prev n i) = i := by
  unfold next prev
  split <;> split <;> omega

lemma prev_slot (hk : 0 < k) (hn : 0 < n) : prev n (slot n h k) = slot n h (k - 1) := by
  have hnext : next n (slot n h (k - 1)) = slot n h k := by rw [next_slot hn, Nat.sub_add_cancel hk]
  have hlt : slot n h (k - 1) < n := slot_lt hn
  rw [← hnext]
  unfold prev next
  split <;> split <;> omega

/-- Every slot comes up within one round. -/
lemma exists_slot (h_lt : h < n) (i_lt : i < n) : ∃ k < n, slot n h k = i := by
  by_cases hle : h ≤ i
  · exact ⟨i - h, by omega, by rw [slot, Nat.add_sub_cancel' hle, Nat.mod_eq_of_lt i_lt]⟩
  · refine ⟨n + i - h, by omega, ?_⟩
    rw [slot, show h + (n + i - h) = n + i by omega, Nat.add_mod_left, Nat.mod_eq_of_lt i_lt]

/-- No slot comes up twice within one round. -/
lemma slot_inj (hk : k < n) (hm : m < n) (heq : slot n h k = slot n h m) : k = m := by
  have hmod : k ≡ m [MOD n] := Nat.ModEq.add_left_cancel' h heq
  exact hmod.eq_of_lt_of_lt hk hm

section Scan
variable (stop : ℕ → Prop) [DecidablePred stop]

/-- The first slot from `i` on at which the scan stops. -/
def scan (n : ℕ) : ℕ → ℕ → Option ℕ
  | 0, _ => none
  | fuel+1, i => if stop i then some i else scan n fuel (next n i)

variable {stop}

theorem scan_eq_some_iff (i_lt : i < n) : scan stop n fuel i = some j ↔
    ∃ k < fuel, j = slot n i k ∧ stop j ∧ ∀ m < k, ¬stop (slot n i m) := by
  have hn : 0 < n := by omega
  induction fuel generalizing i with
  | zero => simp [scan]
  | succ fuel ih =>
    rw [scan]
    split
    · rename_i hstop
      constructor
      · intro h
        cases h
        exact ⟨0, by omega, (slot_zero i_lt).symm, hstop, fun m hm => absurd hm (by omega)⟩
      · rintro ⟨k, -, rfl, -, hbefore⟩
        cases k with
        | zero => rw [slot_zero i_lt]
        | succ k => exact absurd (by rwa [slot_zero i_lt]) (hbefore 0 (by omega))
    · rename_i hstop
      have hshift : ∀ k, slot n (next n i) k = slot n i (k + 1) := fun k => by
        rw [next_eq i_lt, slot_slot, Nat.add_comm]
      refine (ih (next_lt i_lt)).trans ⟨?_, ?_⟩
      · rintro ⟨k, hk, rfl, hj, hbefore⟩
        refine ⟨k + 1, by omega, hshift k, hj, fun m hm => ?_⟩
        cases m with
        | zero => rwa [slot_zero i_lt]
        | succ m =>
          rw [← hshift]
          exact hbefore m (by omega)
      · rintro ⟨k, hk, rfl, hj, hbefore⟩
        cases k with
        | zero =>
          rw [slot_zero i_lt] at hj
          exact absurd hj hstop
        | succ k =>
          refine ⟨k, by omega, (hshift k).symm, hj, fun m hm => ?_⟩
          rw [hshift]
          exact hbefore (m + 1) (by omega)

/-- A scan that goes once around the circle ends when there is a slot at which it stops. -/
theorem scan_isSome (i_lt : i < n) (j_lt : j < n) (hstop : stop j) (hfuel : n ≤ fuel) :
    (scan stop n fuel i).isSome := by
  obtain ⟨k, hk, hslot⟩ := exists_slot i_lt j_lt
  have hex : ∃ k, stop (slot n i k) := ⟨k, by rwa [hslot]⟩
  have hle : Nat.find hex ≤ k := Nat.find_min' hex (by rwa [hslot])
  have hsome : scan stop n fuel i = some (slot n i (Nat.find hex)) :=
    (scan_eq_some_iff i_lt).2 ⟨Nat.find hex, by omega, rfl, Nat.find_spec hex, fun m hm => Nat.find_min hex hm⟩
  rw [hsome]
  rfl

end Scan

/-- From `h` the slot `i` is reached before one round is over, and no slot before it is free. -/
def Path (n : ℕ) (free : ℕ → Prop) (h i : ℕ) : Prop := ∃ k < n, i = slot n h k ∧ ∀ m < k, ¬free (slot n h m)

variable {free free' : ℕ → Prop}

lemma Path.mono (hpath : Path n free h i) (hsub : ∀ j < n, free' j → free j) : Path n free' h i := by
  obtain ⟨k, hk, rfl, hbefore⟩ := hpath
  exact ⟨k, hk, rfl, fun m hm hfree => hbefore m hm (hsub _ (slot_lt (by omega)) hfree)⟩

/-- A slot whose right neighbour is free can become free: no path to another slot that is in use goes over it. -/
lemma Path.free_left (hpath : Path n free h i) (hi : ¬free i) (hij : i ≠ j) (hnext : free (next n j))
    (hsub : ∀ m < n, free' m → free m ∨ m = j) : Path n free' h i := by
  obtain ⟨k, hk, rfl, hbefore⟩ := hpath
  refine ⟨k, hk, rfl, fun m hm hfree => ?_⟩
  have hn : 0 < n := by omega
  rcases hsub _ (slot_lt hn) hfree with hold | rfl
  · exact hbefore m hm hold
  · rw [next_slot hn] at hnext
    rcases Nat.lt_or_ge (m + 1) k with hlt | hge
    · exact hbefore (m + 1) hlt hnext
    · obtain rfl : k = m + 1 := by omega
      exact hi hnext

/-- Two slots on paths from one slot: the farther one is reached over the nearer one. -/
lemma Path.not_free_of_lt (hpath : Path n free h i) (hk : k < n) (hfree : free (slot n h k))
    (hbefore : ∀ m < k, slot n h m ≠ i) : i = slot n h k := by
  obtain ⟨l, hl, rfl, hpath⟩ := hpath
  rcases lt_trichotomy l k with hlt | rfl | hlt
  · exact absurd rfl (hbefore l hlt)
  · rfl
  · exact absurd hfree (hpath k hlt)

end Probing
