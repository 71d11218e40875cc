import CredaCash.RangeCoder

/-! Digits of `w` bits regrouped into digits of `v` bits, through a register of `W` bits that keeps the bits
which are not written yet. -/

namespace Regroup
open RangeCoder

/-- The digits that a register gives while it holds `v` bits, with the number of bits left. -/
def drain (v accum : ℕ) : ℕ → ℕ → List ℕ × ℕ
  | 0, bits => ([], bits)
  | fuel+1, bits =>
    if bits < v then ([], bits)
    else
      let rest := drain v accum fuel (bits - v)
      ((accum >>> (bits - v)) % 2^v :: rest.1, rest.2)

/-- The regrouped digits, with the number of bits that remain. -/
def regroup (W w v : ℕ) : ℕ → ℕ → List ℕ → List ℕ × ℕ
  | bits, _, [] => ([], bits)
  | bits, accum, d :: ds =>
    let accum := (accum <<< w ||| d) % 2^W
    let out := drain v accum (bits + w) (bits + w)
    let rest := regroup W w v out.2 accum ds
    (out.1 ++ rest.1, rest.2)

lemma value_inj {b : ℕ} {xs ys : List ℕ} (hx : ∀ x ∈ xs, x < b) (hy : ∀ y ∈ ys, y < b) (hlen : xs.length = ys.length)
    (h : value b xs = value b ys) : xs = ys := by
  induction xs generalizing ys with
  | nil => exact (List.length_eq_zero_iff.1 hlen.symm).symm
  | cons x xs ih =>
    cases ys with
    | nil => cases hlen
    | cons y ys =>
      have hlen' : xs.length = ys.length := by simpa using hlen
      have hxs := value_lt fun z hz => hx z (List.mem_cons_of_mem x hz)
      have hys := value_lt fun z hz => hy z (List.mem_cons_of_mem y hz)
      rw [value_cons, value_cons, ← hlen'] at h
      rw [← hlen'] at hys
      have hhead : x = y := by
        rcases lt_trichotomy x y with hlt | heq | hlt
        · nlinarith
        · exact heq
        · nlinarith
      rw [hhead, ih (fun z hz => hx z (List.mem_cons_of_mem x hz)) (fun z hz => hy z (List.mem_cons_of_mem y hz))
        hlen' (by rw [hhead] at h; omega)]

/-- The digits drained are those of the bits held, and fewer than `v` bits stay. -/
lemma drain_spec {v : ℕ} (hv : 0 < v) (accum : ℕ) {fuel bits : ℕ} (hfuel : bits ≤ fuel) :
    (drain v accum fuel bits).2 < v ∧ v * (drain v accum fuel bits).1.length + (drain v accum fuel bits).2 = bits ∧
    (∀ d ∈ (drain v accum fuel bits).1, d < 2^v) ∧
    value (2^v) (drain v accum fuel bits).1 * 2^(drain v accum fuel bits).2 + accum % 2^(drain v accum fuel bits).2 =
      accum % 2^bits := by
  induction fuel generalizing bits with
  | zero =>
    obtain rfl : bits = 0 := by omega
    exact ⟨hv, by simp [drain], by simp [drain], by simp [drain]⟩
  | succ fuel ih =>
    by_cases hlt : bits < v
    · rw [drain, if_pos hlt]
      exact ⟨hlt, by simp, by simp, by simp⟩
    · obtain ⟨hleft, hbits, hdigits, hvalue⟩ := @ih (bits - v) (by omega)
      simp only [drain, if_neg hlt]
      refine ⟨hleft, ?_, ?_, ?_⟩
      · rw [List.length_cons, Nat.mul_add, Nat.mul_one]
        omega
      · intro d hd
        rcases List.mem_cons.1 hd with rfl | hd
        · exact Nat.mod_lt _ (Nat.two_pow_pos v)
        · exact hdigits d hd
      · have hsplit : accum % 2^bits = accum / 2^(bits - v) % 2^v * 2^(bits - v) + accum % 2^(bits - v) := by
          have hpow : 2^bits = 2^(bits - v) * 2^v := by rw [← pow_add, Nat.sub_add_cancel (by omega)]
          rw [hpow, Nat.mod_mul]
          ring
        have hexp :
            (2^v)^(drain v accum fuel (bits - v)).1.length * 2^(drain v accum fuel (bits - v)).2 = 2^(bits - v) := by
          rw [← pow_mul, ← pow_add, hbits]
        rw [value_cons, hsplit, ← hvalue, Nat.shiftRight_eq_div_pow, Nat.add_mul, Nat.mul_assoc, hexp, hvalue]
        omega

/-- The digits are regrouped without a change of their number. -/
theorem regroup_spec {W w v : ℕ} (hv : 0 < v) (hW : v + w ≤ W) {bits : ℕ} (accum : ℕ) {ds : List ℕ} (hbits : bits < v)
    (hds : ∀ d ∈ ds, d < 2^w) : v * (regroup W w v bits accum ds).1.length + (regroup W w v bits accum ds).2 =
      bits + w * ds.length ∧ (regroup W w v bits accum ds).2 < v ∧ (∀ d ∈ (regroup W w v bits accum ds).1, d < 2^v) ∧
    ∃ left < 2^(regroup W w v bits accum ds).2, value (2^v) (regroup W w v bits accum ds).1 *
      2^(regroup W w v bits accum ds).2 + left = accum % 2^bits * (2^w)^ds.length + value (2^w) ds := by
  induction ds generalizing bits accum with
  | nil =>
    refine ⟨by simp [regroup], hbits, by simp [regroup], accum % 2^bits, Nat.mod_lt _ (Nat.two_pow_pos _), ?_⟩
    simp [regroup]
  | cons d ds ih =>
    set reg := (accum <<< w ||| d) % 2^W with hreg
    obtain ⟨hleft, hlen, hdigits, hvalue⟩ := @drain_spec v hv reg (bits + w) (bits + w) le_rfl
    obtain ⟨hlen', hleft', hdigits', left, hlt, hvalue'⟩ := ih reg hleft fun x hx => hds x (List.mem_cons_of_mem d hx)
    have hd : d < 2^w := hds d List.mem_cons_self
    have hmod : reg % 2^(bits + w) = accum % 2^bits * 2^w + d := by
      rw [hreg, Nat.mod_mod_of_dvd _ (pow_dvd_pow 2 (by omega)), ← Nat.shiftLeft_add_eq_or_of_lt hd,
        Nat.shiftLeft_eq, Nat.add_comm bits w, pow_add, Nat.mod_mul]
      have hlow : (accum * 2^w + d) % 2^w = d := by
        rw [Nat.mul_comm, Nat.mul_add_mod, Nat.mod_eq_of_lt hd]
      have hhigh : (accum * 2^w + d) / 2^w = accum := by
        rw [Nat.mul_comm, Nat.mul_add_div (Nat.two_pow_pos w), Nat.div_eq_of_lt hd, Nat.add_zero]
      rw [hlow, hhigh]
      ring
    simp only [regroup, ← hreg]
    set out := drain v reg (bits + w) (bits + w) with hout
    refine ⟨?_, hleft', ?_, left, hlt, ?_⟩
    · rw [List.length_append, List.length_cons, Nat.mul_add, Nat.mul_add, Nat.mul_one]
      omega
    · intro x hx
      rcases List.mem_append.1 hx with hx | hx
      · exact hdigits x hx
      · exact hdigits' x hx
    · have hexp : (2^v)^(regroup W w v out.2 reg ds).1.length * 2^(regroup W w v out.2 reg ds).2 =
          2^out.2 * (2^w)^ds.length := by
        rw [← pow_mul, ← pow_add, ← pow_mul, ← pow_add, hlen']
      rw [value_append, Nat.add_mul, Nat.mul_assoc, hexp, Nat.add_assoc, hvalue', value_cons, List.length_cons,
        pow_succ, ← Nat.add_assoc, ← Nat.mul_assoc, ← Nat.add_mul, hvalue, hmod]
      ring

/-- Digits that fill whole digits of the other size come back from them. -/
theorem regroup_regroup {W w v : ℕ} (hw : 0 < w) (hv : 0 < v) (hW : v + w ≤ W) {ds : List ℕ} (hds : ∀ d ∈ ds, d < 2^w)
    (hwhole : v ∣ w * ds.length) :
    (regroup W v w 0 0 (regroup W w v 0 0 ds).1).1 = ds ∧ v * (regroup W w v 0 0 ds).1.length = w * ds.length := by
  obtain ⟨hlen, hleft, hdigits, left, hlt, hvalue⟩ := regroup_spec hv hW 0 hv hds
  have hnone : (regroup W w v 0 0 ds).2 = 0 := by
    obtain ⟨k, hk⟩ := hwhole
    rw [hk, Nat.zero_add] at hlen
    have hmod : (v * (regroup W w v 0 0 ds).1.length + (regroup W w v 0 0 ds).2) % v = v * k % v := by rw [hlen]
    rw [Nat.mul_add_mod, Nat.mod_eq_of_lt hleft, Nat.mul_mod_right] at hmod
    exact hmod
  rw [hnone] at hlen hlt hvalue
  obtain ⟨hlen', hleft', hdigits', left', hlt', hvalue'⟩ := regroup_spec hw (by omega) 0 hw hdigits (W := W)
  have hlen'' : w * (regroup W v w 0 0 (regroup W w v 0 0 ds).1).1.length +
      (regroup W v w 0 0 (regroup W w v 0 0 ds).1).2 = w * ds.length := by omega
  have hnone' : (regroup W v w 0 0 (regroup W w v 0 0 ds).1).2 = 0 := by
    have hmod := congrArg (· % w) hlen''
    simp only [Nat.mul_add_mod, Nat.mod_eq_of_lt hleft', Nat.mul_mod_right] at hmod
    exact hmod
  rw [hnone'] at hlt' hvalue' hlen''
  refine ⟨value_inj hdigits' hds (Nat.eq_of_mul_eq_mul_left hw hlen'') ?_, by omega⟩
  simp only [pow_zero, Nat.lt_one_iff, Nat.mul_one, Nat.mod_one, Nat.zero_mul, Nat.zero_add] at hlt hlt' hvalue hvalue'
  omega

end Regroup
