import CredaCash.Text.SpecText

/-! Numbers in JSON: texts of hex digits, or of decimal digits with a point and an exponent, are read into integers of
256 bits. -/

namespace CredaCash.Json
open Text

def errorInvalidNumericChar (key : String) (c : UInt8) : String :=
  "error: invalid numeric character '" ++ String.singleton (Char.ofNat c.toNat) ++ "' in value of \"" ++ key ++ "\""
def errorNotHex (key : String) : String := "error: non-hex character in value of \"" ++ key ++ "\""
def errorInvalidValue (key : String) : String := "error: invalid value for key \"" ++ key ++ "\""

def errorValueOverflow (key : String) (nbits maxval : ℕ) : String :=
  if nbits = 0 ∧ maxval / 2^64 ≠ 0 then "error: value of \"" ++ key ++ "\" larger than prime modulus"
  else if nbits ≠ 0 then "error: value of \"" ++ key ++ "\" larger than " ++ toString nbits ++ " bits"
  else "error: value of \"" ++ key ++ "\" larger than " ++ toString maxval

/-- Without a modulus, that is modulo 2^256. -/
def addBigInt (a b : ℕ) : ℕ := (a + b) % 2^256
def subBigInt (a b : ℕ) : ℕ := (a + (2^256 - b)) % 2^256
def mulBigInt (a b : ℕ) : ℕ := a * b % 2^256

def base16combobin : List ℕ :=
  [16, 48, 102, 0, 1, 2, 3, 4, 5, 6, 7, 8, 9, 255, 255, 255, 255, 255, 255, 255, 10, 11, 12, 13, 14, 15,
    255, 255, 255, 255, 255, 255, 255, 255, 255, 255, 255, 255, 255, 255, 255, 255, 255, 255, 255, 255, 255, 255,
    255, 255, 255, 255, 10, 11, 12, 13, 14, 15]

section
variable (key : String) (nbits maxval : ℕ)

def parseHexLoop : ℕ → List UInt8 → Except String ℕ
  | val, [] => .ok val
  | val, c :: sval =>
    let c := destringifyChar base16combobin c
    if c > 15 then .error (errorNotHex key)
    else if maxval / 16 ≠ 0 ∧ val > maxval / 16 then .error (errorValueOverflow key nbits maxval)
    else if maxval ≠ 0 ∧ mulBigInt val 16 > subBigInt maxval c then .error (errorValueOverflow key nbits maxval)
    else if maxval ≠ 0 ∧ addBigInt (mulBigInt val 16) c > maxval then .error (errorValueOverflow key nbits maxval)
    else parseHexLoop (addBigInt (mulBigInt val 16) c) sval

def parseHexValue (sval : List UInt8) : Except String ℕ :=
  if sval = [] then .error (errorNotHex key) else parseHexLoop key nbits maxval 0 sval

/-- One more decimal digit. -/
def pushDigit (val c : ℕ) : Except String ℕ :=
  if val > (2^256 - 1) / 10 then .error (errorValueOverflow key 256 (2^256 - 1))
  else if maxval ≠ 0 ∧ mulBigInt val 10 > subBigInt 0 (c + 1) then .error (errorValueOverflow key 256 (2^256 - 1))
  else .ok (addBigInt (mulBigInt val 10) c)

/-- The turns of the loop with an exponent above zero. -/
def scaleUp : ℕ → ℕ → Except String ℕ
  | 0, val => .ok val
  | exp+1, val => do scaleUp exp (← pushDigit key maxval val 0)

/-- The turns of the loop with an exponent below zero, which take zeros off. -/
def scaleDown : ℕ → ℕ → Except String ℕ
  | 0, val => .ok val
  | exp+1, val => if val % 10 ≠ 0 then .error (errorInvalidValue key) else scaleDown exp (val / 10)

/-- The turns with an exponent, and the test after the loop. -/
def scaleTo (exp : ℤ) (val : ℕ) : Except String ℕ := do
  let val ← if 0 ≤ exp then scaleUp key maxval exp.toNat val else scaleDown key exp.natAbs val
  if maxval ≠ 0 ∧ val > maxval then throw (errorValueOverflow key nbits maxval) else return val

variable (isexp : Bool) (exponent : List UInt8 → Except String ℤ)

def IsPoint (c : UInt8) : Prop := c = 46
def IsExponent (c : UInt8) : Prop := c = 101 ∨ c = 69

instance (c : UInt8) : Decidable (IsPoint c) := inferInstanceAs (Decidable (_ = _))
instance (c : UInt8) : Decidable (IsExponent c) := inferInstanceAs (Decidable (_ ∨ _))

/-- The characters of a decimal text, of which `cut` has been cut off at the end. `frac` is one more than the number of
digits behind the point, and 0 before it. -/
def parseDecLoop (cut : List UInt8) : (first : Bool) → (frac val : ℕ) → List UInt8 → Except String ℕ
  | _, frac, val, [] => scaleTo key nbits maxval (-((frac - 1 : ℕ) : ℤ)) val
  | first, frac, val, c :: sval =>
    if IsPoint c ∧ frac = 0 ∧ ¬isexp then parseDecLoop cut false 1 val sval
    else if IsExponent c ∧ ¬first ∧ ¬isexp then do
      let exp ← exponent (sval ++ cut)
      scaleTo key nbits maxval (exp - (frac - 1 : ℕ)) val
    else if c < 48 ∨ c > 57 then .error (errorInvalidNumericChar key c)
    else do parseDecLoop cut false (if frac = 0 then 0 else frac + 1) (← pushDigit key maxval val (c.toNat - 48)) sval

def parseDecValue (sval cut : List UInt8) : Except String ℕ :=
  if sval = [] then .error (errorInvalidValue key)
  else parseDecLoop key nbits maxval isexp exponent cut true 0 0 sval

/-- The character for hex and what is behind it. -/
def hexPrefix : List UInt8 → Option (List UInt8)
  | 120 :: hex | 88 :: hex | 48 :: 120 :: hex | 48 :: 88 :: hex => some hex
  | _ => none

/-- An "L" at the end is cut off. -/
def cutSuffix (isexp : Bool) (sval : List UInt8) : List UInt8 × List UInt8 :=
  if sval.getLast? = some 76 ∧ ¬isexp then (sval.dropLast, [76]) else (sval, [])

/-- What is behind the sign. -/
def parseUnsignedValue (sval : List UInt8) : Except String ℕ :=
  let (sval, cut) := cutSuffix isexp sval
  match if isexp then none else hexPrefix sval with
  | some hex => parseHexValue key nbits maxval hex
  | none => parseDecValue key nbits maxval isexp exponent sval cut

/-- The limit for a value without a sign. -/
def maxPositive : ℕ := if maxval ≠ 0 then maxval else 2^min nbits 256 - 1

/-- The limit for a value below zero, which is one more for a number of bits where that does not wrap around. -/
def maxNegative : ℕ :=
  let maxval := maxPositive nbits maxval
  if nbits = 0 then maxval else if addBigInt maxval 1 = 0 then maxval else addBigInt maxval 1

/-- Whether there is a minus, the limit, and the value. -/
def parseSignedValue : List UInt8 → Except String (Bool × ℕ × ℕ)
  | [] => .error (errorInvalidValue key)
  | prechar :: sval =>
    if prechar = 45 ∨ prechar = 43 ∧ isexp then
      if sval = [] then .error (errorInvalidValue key)
      else
        let maxval := if prechar = 45 then maxNegative nbits maxval else maxPositive nbits maxval
        (parseUnsignedValue key nbits maxval isexp exponent sval).map fun val => (prechar = 45, maxval, val)
    else
      let maxval := maxPositive nbits maxval
      (parseUnsignedValue key nbits maxval isexp exponent (prechar :: sval)).map fun val => (false, maxval, val)

/-- Values below zero are negated in the prime field when the limit is that of the field. -/
def negateValue : Bool × ℕ × ℕ → ℕ
  | (negative, maxval, val) =>
    if negative ∧ val ≠ 0 then if maxval = txFieldMax then txFieldMax + 1 - val else subBigInt 0 val else val

end

/-- The number behind an "e", in 24 bits and a sign. -/
def parseExponent (key : String) (sval : List UInt8) : Except String ℤ := do
  let val ← (parseSignedValue key 24 0 true (fun _ => .ok 0) sval).map negateValue
  return (Int.ofNat (val % 2^32)).bmod (2^32)

/-- `parse_int_value`, with a number of bits or else with a limit. -/
def parseIntValue (key : String) (sval : List UInt8) (nbits maxval : ℕ) : Except String ℕ :=
  (parseSignedValue key nbits maxval false (parseExponent key) sval).map negateValue

end CredaCash.Json
