import CredaCash.Json.ParseInt

/-! Numbers that are put out in hex, and their texts read again. -/

namespace CredaCash.Json
open Text PlaceValue

/-- What a stream puts out for a digit. -/
def hexSymbol (d : ℕ) : UInt8 := UInt8.ofNat (if d < 10 then 48 + d else 87 + d)

/-- A number as a stream puts it out in hex, behind "0x". -/
def hexText (n : ℕ) : List UInt8 := 48 :: 120 :: ((lowDigits 16 (width 16 n) n).map hexSymbol).reverse

lemma hexSymbol_spec : ∀ d < 16, destringifyChar base16combobin (hexSymbol d) = d ∧ hexSymbol d ≠ 76 := by decide +kernel

section
variable {key : String} {nbits maxval val d n v : ℕ} {sval : List UInt8}

/-- One more digit of a number that is not above the limit. -/
lemma parseHexLoop_hexSymbol (hd : d < 16) (hle : val * 16 + d ≤ maxval) (hmax : maxval < 2^256) :
    parseHexLoop key nbits maxval val (hexSymbol d :: sval) = parseHexLoop key nbits maxval (val * 16 + d) sval := by
  have hmul : mulBigInt val 16 = val * 16 := Nat.mod_eq_of_lt (by omega)
  have hadd : addBigInt (val * 16) d = val * 16 + d := Nat.mod_eq_of_lt (by omega)
  have hsub : subBigInt maxval d = maxval - d := by
    rw [subBigInt, show maxval + (2^256 - d) = maxval - d + 2^256 by omega, Nat.add_mod_right]
    exact Nat.mod_eq_of_lt (by omega)
  rw [parseHexLoop, (hexSymbol_spec d hd).1, hmul, hadd, hsub]
  rw [if_neg (by omega), if_neg (by omega), if_neg (by omega), if_neg (by omega)]

lemma parseHexLoop_lowDigits (hle : val * 16^n + v % 16^n ≤ maxval) (hmax : maxval < 2^256) :
    parseHexLoop key nbits maxval val (((lowDigits 16 n v).map hexSymbol).reverse ++ sval) =
      parseHexLoop key nbits maxval (val * 16^n + v % 16^n) sval := by
  induction n generalizing v sval with
  | zero => rw [pow_zero, Nat.mod_one, Nat.mul_one]; rfl
  | succ n ih =>
    have hvalue : (val * 16^n + v / 16 % 16^n) * 16 + v % 16 = val * 16^(n + 1) + v % 16^(n + 1) := by
      rw [pow_succ', Nat.mod_mul]
      ring
    rw [lowDigits, List.map_cons, List.reverse_cons, List.append_assoc, ih (by omega)]
    rw [← hvalue]
    exact parseHexLoop_hexSymbol (Nat.mod_lt v (by decide)) (by omega) hmax

/-- The text of a number is read as the number, where the bits are enough for it. -/
theorem parseIntValue_hexText (key : String) (hbits : nbits ≤ 256) (hn : n < 2^nbits) :
    parseIntValue key (hexText n) nbits 0 = .ok n := by
  have hmax : maxPositive nbits 0 = 2^nbits - 1 := by rw [maxPositive, if_neg (by decide), min_eq_left hbits]
  have hpow : 2^nbits ≤ 2^256 := Nat.pow_le_pow_right (by decide) hbits
  have hlt := Nat.two_pow_pos nbits
  set hex := ((lowDigits 16 (width 16 n) n).map hexSymbol).reverse with hhex
  have hne : hex ≠ [] := by
    rw [← List.length_pos_iff, hhex, List.length_reverse, List.length_map, length_lowDigits]
    exact le_max_left 1 (Nat.digits 16 n).length
  have hlast : hex.getLast? ≠ some 76 := by
    intro hlast
    obtain ⟨d, hd, hsymbol⟩ := List.mem_map.1 (List.mem_reverse.1 (List.mem_of_getLast? hlast))
    exact (hexSymbol_spec d (lt_of_mem_lowDigits (by decide) hd)).2 hsymbol
  have hread : parseHexValue key nbits (2^nbits - 1) hex = .ok n := by
    have hmod : n % 16^(width 16 n) = n := Nat.mod_eq_of_lt (lt_pow_width (by decide) n)
    have hloop := @parseHexLoop_lowDigits key nbits (2^nbits - 1) 0 (width 16 n) n [] (by omega) (by omega)
    rw [Nat.zero_mul, Nat.zero_add, hmod, List.append_nil] at hloop
    rw [parseHexValue, if_neg hne]
    exact hloop
  have hcut : cutSuffix false (48 :: 120 :: hex) = (48 :: 120 :: hex, []) := by
    rw [cutSuffix, if_neg fun h => hlast ?_]
    obtain ⟨c, hex', hcons⟩ := List.exists_cons_of_ne_nil hne
    rw [hcons] at h ⊢
    exact h.1
  have hsigned : parseSignedValue key nbits 0 false (parseExponent key) (48 :: 120 :: hex) =
      .ok (false, 2^nbits - 1, n) := by
    have hunsigned : parseUnsignedValue key nbits (2^nbits - 1) false (parseExponent key) (48 :: 120 :: hex) = .ok n := by
      unfold parseUnsignedValue
      rw [hcut]
      exact hread
    rw [parseSignedValue, if_neg (by decide), hmax]
    exact congrArg (Except.map _) hunsigned
  rw [parseIntValue, hexText, ← hhex, hsigned]
  rfl

lemma hexText_inj {m : ℕ} (hm : m < 2^64) (hn : n < 2^64) (h : hexText m = hexText n) : m = n := by
  have hread := parseIntValue_hexText "" (by decide : 64 ≤ 256) hm
  rw [h, parseIntValue_hexText "" (by decide) hn] at hread
  exact (Except.ok.inj hread).symm

end

end CredaCash.Json
