import CredaCash.Wire.Bn128
import Mathlib.Tactic.IntervalCases

/-! Which proofs come back from their compressed form: all of them, but for a point of the second group whose y
coordinate has no sign. -/

namespace CredaCash.Wire
open Amounts RootSign

section Points
variable {K : Type} [CommRing K] [Components K] {G : Group K} {g : Point K} {x x' x1 : Bigint} {second : Bool}

/-- A finite point of the curve, with coordinates below 2^254. -/
structure OnCurve (G : Group K) (g : Point K) : Prop where
  finite : G.isZero (G.affineCoordinates g) = false
  curve : (G.affineCoordinates g).y * (G.affineCoordinates g).y =
    (G.affineCoordinates g).x * (G.affineCoordinates g).x * (G.affineCoordinates g).x + G.coeffB
  small : ∀ i, (Components.get (G.affineCoordinates g).x i).val < 2^254 ∧
    (Components.get (G.affineCoordinates g).y i).val < 2^254

omit [CommRing K] in
lemma toNat_lsb (y : K) : (lsb y).toNat = (Components.get y 0).val % 2 := by
  rw [lsb, UInt64.toNat_and, toNat_word0]
  exact (Nat.and_two_pow_sub_one_eq_mod _ 1).trans (by omega)

omit [CommRing K] in
lemma lsb_eq_iff {y y' : K} : lsb y = lsb y' ↔ (Components.get y 0).val % 2 = (Components.get y' 0).val % 2 := by
  rw [← UInt64.toNat_inj, toNat_lsb, toNat_lsb]

/-- Only a number's own bits are read. -/
lemma int2G_congr (h : ownBits x = ownBits x') : int2G G x x1 = int2G G x' x1 := by
  simp only [int2G, clearHigh_congr h, parity_congr h]

lemma int2G_isSome : (int2G G x x1).isSome ↔ x1.val < 2^254 := by
  unfold int2G
  by_cases h : x1.word3 >>> 62 ≠ 0
  · rw [if_pos h]
    exact iff_of_false (by simp) (not_lt.2 ((word3_high_ne_zero x1).1 h))
  · rw [if_neg h]
    exact iff_of_true rfl (not_le.1 fun hle => h ((word3_high_ne_zero x1).2 hle))

/-- What a point is decoded to. -/
def decoded (G : Group K) (g : Point K) : Point K :=
  ⟨(G.affineCoordinates g).x, withSign lsb (lsb (G.affineCoordinates g).y)
    (G.sqrt ((G.affineCoordinates g).y * (G.affineCoordinates g).y)), 1⟩

/-- The number that stands for a point. -/
def pointBits (G : Group K) (g : Point K) : ℕ :=
  (Components.get (G.affineCoordinates g).x 0).val + 2^254 * (lsb (G.affineCoordinates g).y).toNat

lemma OnCurve.pointBits_lt (h : OnCurve G g) : pointBits G g < 2^255 := by
  have hx := (h.small 0).1
  have hy := toNat_lsb (G.affineCoordinates g).y
  unfold pointBits
  omega

lemma OnCurve.g2Int (h : OnCurve G g) (second : Bool) : ∃ x x1, g2Int G second g = some (x, x1) ∧
    x.val = pointBits G g ∧ x1.val = if second then (Components.get (G.affineCoordinates g).x 1).val else 0 := by
  have hx := (h.small 0).1
  have hparity := toNat_lsb (G.affineCoordinates g).y
  have hx1 : (if second then Components.get (G.affineCoordinates g).x 1 else .ofNat 0 : Bigint).val =
      if second then (Components.get (G.affineCoordinates g).x 1).val else 0 := by
    cases second <;> rfl
  have hsmall : (if second then (Components.get (G.affineCoordinates g).x 1).val else 0) < 2^254 := by
    split_ifs
    · exact (h.small 1).1
    · exact Nat.two_pow_pos _
  refine ⟨_, _, ?_, val_or_bit62 hx (by omega), hx1⟩
  unfold Wire.g2Int
  dsimp only
  rw [if_neg (by rw [h.finite]; decide), if_neg fun hne => absurd ((word3_high_ne_zero _).1 hne) (not_le.2 hx),
    if_neg fun hne => absurd ((word3_high_ne_zero _).1 hne) (by rw [hx1]; exact not_le.2 hsmall)]

lemma OnCurve.int2G (h : OnCurve G g) (hx : ownBits x = pointBits G g) (hx1 : x1.val < 2^254)
    (hset : ∀ x' x1' : Bigint, x'.val = (Components.get (G.affineCoordinates g).x 0).val → x1'.val = x1.val →
      (Components.set x' x1' : K) = (G.affineCoordinates g).x) :
    int2G G x x1 = some (decoded G g) := by
  have hsmall := (h.small 0).1
  have hparity := toNat_lsb (G.affineCoordinates g).y
  unfold ownBits pointBits at hx
  have haX : (Components.set (clearHigh x) (clearHigh x1) : K) = (G.affineCoordinates g).x :=
    hset _ _ (by rw [val_clearHigh]; omega) (by rw [val_clearHigh, Nat.mod_eq_of_lt hx1])
  have hbit : x.word3 >>> 62 &&& (1 : UInt64) = lsb (G.affineCoordinates g).y := by
    rw [← UInt64.toNat_inj, toNat_bit62, toNat_word3]
    omega
  unfold Wire.int2G
  rw [if_neg fun hne => absurd ((word3_high_ne_zero x1).1 hne) (not_le.2 hx1)]
  dsimp only
  rw [haX, hbit, ← h.curve]
  rfl

/-- A decoded point is the same if the square root is the right one, or the parities of both tell them apart. -/
lemma OnCurve.decoded_eq_iff (h : OnCurve G g) : G.affineCoordinates (decoded G g) = G.affineCoordinates g ↔
    (lsb (-(G.affineCoordinates g).y) = lsb (G.affineCoordinates g).y →
      G.sqrt ((G.affineCoordinates g).y * (G.affineCoordinates g).y) = (G.affineCoordinates g).y) := by
  rw [← withSign_eq_iff (G.sqrt_mul_self _), decoded, G.affineCoordinates_one, Point.ext_iff]
  exact ⟨fun heq => heq.2.1, fun heq => ⟨rfl, heq, (G.z_affineCoordinates g h.finite).symm⟩⟩

end Points

section Proofs
variable {S : Pairing} {proof : Proof S} {vec : ProofVec}

instance (S : Pairing) : NeZero S.p := ⟨fun h => by
  have hodd := S.odd
  rw [h] at hodd
  exact absurd hodd (by decide)⟩

lemma val_get_fp (a : ZMod S.p) (i : ℕ) : (Components.get a i).val = a.val :=
  (Bigint.val_ofNat _).trans (Nat.mod_eq_of_lt ((ZMod.val_lt a).trans S.fits))

lemma val_get_fp2 (a : QuadraticAlgebra (ZMod S.p) S.nonresidue 0) (i : ℕ) :
    (Components.get a i).val = if i = 0 then a.re.val else a.im.val := by
  refine (Bigint.val_ofNat _).trans (Nat.mod_eq_of_lt ?_)
  split_ifs
  · exact (ZMod.val_lt _).trans S.fits
  · exact (ZMod.val_lt _).trans S.fits

lemma set_fp (a : ZMod S.p) {x x1 : Bigint} (hx : x.val = (Components.get a 0).val) :
    (Components.set x x1 : ZMod S.p) = a := by
  change ((x.val : ℕ) : ZMod S.p) = a
  rw [hx, val_get_fp, ZMod.natCast_zmod_val]

lemma set_fp2 (a : QuadraticAlgebra (ZMod S.p) S.nonresidue 0) {x x1 : Bigint}
    (hx : x.val = (Components.get a 0).val) (hx1 : x1.val = (Components.get a 1).val) :
    (Components.set x x1 : QuadraticAlgebra (ZMod S.p) S.nonresidue 0) = a := by
  change (⟨((x.val : ℕ) : ZMod S.p), ((x1.val : ℕ) : ZMod S.p)⟩ : QuadraticAlgebra (ZMod S.p) S.nonresidue 0) = a
  rw [hx, hx1, val_get_fp2, val_get_fp2, if_pos rfl, if_neg one_ne_zero, ZMod.natCast_zmod_val, ZMod.natCast_zmod_val]

/-- In the first group every point comes back. -/
lemma OnCurve.decoded_fp {g : Point (ZMod S.p)} (h : OnCurve S.G1 g) :
    S.G1.affineCoordinates (decoded S.G1 g) = S.G1.affineCoordinates g := by
  refine h.decoded_eq_iff.2 fun hsame => ?_
  rw [lsb_eq_iff, val_get_fp, val_get_fp, val_neg_mod_two_iff S.odd] at hsame
  rw [hsame]
  exact (S.G1.sqrt_mul_self 0).elim id fun hzero => hzero.trans neg_zero

/-- In the second group the first component of y has to have a parity that tells it from its negative. -/
lemma OnCurve.decoded_fp2_iff {g : Point (QuadraticAlgebra (ZMod S.p) S.nonresidue 0)} (h : OnCurve S.G2 g) :
    S.G2.affineCoordinates (decoded S.G2 g) = S.G2.affineCoordinates g ↔ ((S.G2.affineCoordinates g).y.re = 0 →
      S.G2.sqrt ((S.G2.affineCoordinates g).y * (S.G2.affineCoordinates g).y) = (S.G2.affineCoordinates g).y) := by
  rw [h.decoded_eq_iff, lsb_eq_iff, val_get_fp2, val_get_fp2, if_pos rfl, if_pos rfl, QuadraticAlgebra.re_neg,
    val_neg_mod_two_iff S.odd]

/-- All points are finite points of their curves. -/
structure OnCurves (proof : Proof S) : Prop where
  g1 : ∀ i g, (i, g) ∈ proof.g1Points → OnCurve S.G1 g
  g2 : OnCurve S.G2 proof.bG

/-- A statement about the points of the first group is one about each of them. -/
lemma forall_g1Points {P : ℕ → Point (ZMod S.p) → Prop} : (∀ i g, (i, g) ∈ proof.g1Points → P i g) ↔
    P 0 proof.aG ∧ P 1 proof.aH ∧ P 3 proof.bH ∧ P 4 proof.cG ∧ P 5 proof.cH ∧ P 6 proof.h ∧ P 7 proof.k := by
  rw [← Prod.forall (p := fun q => q ∈ proof.g1Points → P q.1 q.2)]
  simp only [Proof.g1Points, List.forall_mem_cons, List.not_mem_nil, false_implies, implies_true, and_true]

/-- What is done with all points. -/
def Proof.map (f : Point (ZMod S.p) → Point (ZMod S.p))
    (f2 : Point (QuadraticAlgebra (ZMod S.p) S.nonresidue 0) → Point (QuadraticAlgebra (ZMod S.p) S.nonresidue 0))
    (proof : Proof S) : Proof S :=
  ⟨f proof.aG, f proof.aH, f2 proof.bG, f proof.bH, f proof.cG, f proof.cH, f proof.h, f proof.k⟩

lemma g1Points_map (f : Point (ZMod S.p) → Point (ZMod S.p))
    (f2 : Point (QuadraticAlgebra (ZMod S.p) S.nonresidue 0) → Point (QuadraticAlgebra (ZMod S.p) S.nonresidue 0)) :
    (proof.map f f2).g1Points = proof.g1Points.map fun q => (q.1, f q.2) := rfl

/-- The points in affine form. -/
def Proof.affine (proof : Proof S) : Proof S := proof.map S.G1.affineCoordinates S.G2.affineCoordinates

/-- The ninth number, of which the last byte is in the highest bits of the others. -/
def ninth (vec : ProofVec) : ℕ := (vec 8).val % 2^248 + 2^248 * gathered vec

/-- The points that are put out are equal to the ones that went in. -/
def RoundTrips (proof : Proof S) : Prop :=
  ∃ vec out, proof2Vec S proof = some vec ∧ vec2Proof S (wireVec vec) = some out ∧ out.affine = proof.affine

/-- Each point comes from the bits of its own number, and of the ninth one for the second group. -/
structure NoLeak (S : Pairing) : Prop where
  accepts : ∀ vec, (vec2Proof S vec).isSome ↔ ninth vec < 2^254
  g1 : ∀ vec vec' out out', vec2Proof S vec = some out → vec2Proof S vec' = some out' → ∀ i g g',
    (i, g) ∈ out.g1Points → (i, g') ∈ out'.g1Points → ownBits (vec i) = ownBits (vec' i) → g = g'
  g2 : ∀ vec vec' out out', vec2Proof S vec = some out → vec2Proof S vec' = some out' →
    ownBits (vec 2) = ownBits (vec' 2) → ninth vec = ninth vec' → out.bG = out'.bG

/-- The number that `Vec2Proof` puts together. -/
lemma val_vec8 (vec : ProofVec) :
    (ofBigintBytes ((bigintBytes (vec 8)).take 31 ++ [.ofNat (gatherByte 8 vec)])).val = ninth vec := by
  have hgather : gatherByte 8 vec = gathered vec := (gatherByte_eq (le_refl 8)).trans (Nat.one_mul _)
  have hlt : gathered vec < 2^8 := sum_highBit_lt 8
  rw [val_setLast, hgather, UInt8.toNat_ofNat', Nat.mod_eq_of_lt hlt, ninth]

/-- Each point is read from its own number. -/
lemma vec2Proof_eq_some {out : Proof S} : vec2Proof S vec = some out ↔
    (∀ i g, (i, g) ∈ out.g1Points → int2G S.G1 (vec i) (.ofNat 0) = some g) ∧
      int2G S.G2 (vec 2) (ofBigintBytes ((bigintBytes (vec 8)).take 31 ++ [.ofNat (gatherByte 8 vec)])) =
        some out.bG := by
  obtain ⟨aG, aH, bG, bH, cG, cH, h, k⟩ := out
  rw [forall_g1Points]
  simp only [vec2Proof, Option.bind_eq_bind, Option.bind_eq_some_iff, Option.pure_def, Option.some_inj, Proof.mk.injEq]
  constructor
  · rintro ⟨_, h0, _, h1, _, h2, _, h3, _, h4, _, h5, _, h6, _, h7, rfl, rfl, rfl, rfl, rfl, rfl, rfl, rfl⟩
    exact ⟨⟨h0, h1, h3, h4, h5, h6, h7⟩, h2⟩
  · rintro ⟨⟨h0, h1, h3, h4, h5, h6, h7⟩, h2⟩
    exact ⟨aG, h0, aH, h1, bG, h2, bH, h3, cG, h4, cH, h5, h, h6, k, h7, rfl, rfl, rfl, rfl, rfl, rfl, rfl, rfl⟩

lemma sum_bits (n a : ℕ) : ∑ i ∈ Finset.range n, 2^i * (a / 2^i % 2) = a % 2^n := by
  induction n with
  | zero => exact (Nat.mod_one a).symm
  | succ n ih => rw [Finset.sum_range_succ, ih, pow_succ, Nat.mod_mul]

/-- The last byte in the highest bits of the other numbers. -/
lemma spread_spec {v : ProofVec} (hv : ∀ i < 8, (v i).val < 2^255) (hlast : (v 8).val < 2^254)
    (hvec : vec = (spreadByte 8 v ((vecBytes v).getD 287 0).toUInt64).1) :
    (∀ i < 8, ownBits (vec i) = (v i).val) ∧ ninth (wireVec vec) = (v 8).val := by
  have hval : ∀ j, (vec j).val = (v j).val + if j < 8 then 2^255 * ((v 8).val / 2^248 / 2^j % 2) else 0 := fun j => by
    rw [hvec, val_spreadByte hv, lastByte_eq]
  have hown : ∀ i < 8, ownBits (vec i) = (v i).val := fun i hi => by
    have hlt := hv i hi
    rw [ownBits, hval, if_pos hi]
    omega
  have hgathered : gathered (wireVec vec) = (v 8).val / 2^248 := by
    have hbits : gathered (wireVec vec) = ∑ i ∈ Finset.range 8, 2^i * ((v 8).val / 2^248 / 2^i % 2) := by
      refine Finset.sum_congr rfl fun i hi => ?_
      have hi := Finset.mem_range.1 hi
      have hlt := hv i hi
      rw [wireVec_of_lt hi, highBit, hval, if_pos hi]
      congr 1
      omega
    rw [hbits, sum_bits]
    omega
  refine ⟨hown, ?_⟩
  rw [ninth, hgathered, val_wireVec_last, hval, if_neg (lt_irrefl 8)]
  omega

/-- The numbers of points on their curves. -/
lemma OnCurves.proof2Vec (h : OnCurves proof) : ∃ vec, proof2Vec S proof = some vec ∧
    (∀ i g, (i, g) ∈ proof.g1Points → i < 8 ∧ ownBits (vec i) = pointBits S.G1 g) ∧
    ownBits (vec 2) = pointBits S.G2 proof.bG ∧
    ninth (wireVec vec) = (Components.get (S.G2.affineCoordinates proof.bG).x 1).val := by
  have hcode : ∀ i g, (i, g) ∈ proof.g1Points → ∃ x x1, g2Int S.G1 false g = some (x, x1) ∧ x.val = pointBits S.G1 g :=
    fun i g hmem => by
      obtain ⟨x, x1, hcode, hx, -⟩ := (h.g1 i g hmem).g2Int false
      exact ⟨x, x1, hcode, hx⟩
  obtain ⟨⟨v0, u0, h0, hv0⟩, ⟨v1, u1, h1, hv1⟩, ⟨v3, u3, h3, hv3⟩, ⟨v4, u4, h4, hv4⟩, ⟨v5, u5, h5, hv5⟩,
    ⟨v6, u6, h6, hv6⟩, v7, u7, h7, hv7⟩ := forall_g1Points.1 hcode
  obtain ⟨v2, v8, h2, hv2, hv8⟩ := h.g2.g2Int true
  set v : ProofVec := fun i => [v0, v1, v2, v3, v4, v5, v6, v7, v8].getD i (.ofNat 0) with hv
  have hvec : Wire.proof2Vec S proof = some (spreadByte 8 v ((vecBytes v).getD 287 0).toUInt64).1 := by
    simp only [Wire.proof2Vec, h0, h1, h2, h3, h4, h5, h6, h7]
    rfl
  have hpoint : ∀ i g, (i, g) ∈ proof.g1Points → i < 8 ∧ (v i).val = pointBits S.G1 g :=
    forall_g1Points.2 ⟨⟨by decide, hv0⟩, ⟨by decide, hv1⟩, ⟨by decide, hv3⟩, ⟨by decide, hv4⟩, ⟨by decide, hv5⟩,
      ⟨by decide, hv6⟩, by decide, hv7⟩
  have hplace : ∀ i < 8, i = 2 ∨ ∃ g, (i, g) ∈ proof.g1Points := fun i hi => by
    interval_cases i <;> simp [Proof.g1Points]
  have hlt : ∀ i < 8, (v i).val < 2^255 := fun i hi => by
    rcases hplace i hi with rfl | ⟨g, hmem⟩
    · exact hv2.trans_lt h.g2.pointBits_lt
    · exact (hpoint i g hmem).2.trans_lt (h.g1 i g hmem).pointBits_lt
  rw [if_pos rfl] at hv8
  obtain ⟨hown, hninth⟩ := spread_spec hlt (hv8.trans_lt (h.g2.small 1).1) rfl
  refine ⟨_, hvec, fun i g hmem => ?_, (hown 2 (by decide)).trans hv2, hninth.trans hv8⟩
  obtain ⟨hi, hvalue⟩ := hpoint i g hmem
  exact ⟨hi, (hown i hi).trans hvalue⟩

theorem noLeak (S : Pairing) : NoLeak S where
  accepts vec := by
    rw [← val_vec8 vec, ← @int2G_isSome _ _ _ S.G2 (vec 2)]
    constructor
    · intro h
      obtain ⟨out, hout⟩ := Option.isSome_iff_exists.1 h
      exact Option.isSome_iff_exists.2 ⟨_, (vec2Proof_eq_some.1 hout).2⟩
    · intro h
      obtain ⟨bG, hbG⟩ := Option.isSome_iff_exists.1 h
      have hg1 : ∀ i, ∃ g, int2G S.G1 (vec i) (.ofNat 0) = some g := fun i =>
        Option.isSome_iff_exists.1 (int2G_isSome.2 (by decide))
      choose g hg using hg1
      refine Option.isSome_iff_exists.2 ⟨⟨g 0, g 1, bG, g 3, g 4, g 5, g 6, g 7⟩, vec2Proof_eq_some.2 ⟨?_, hbG⟩⟩
      exact forall_g1Points.2 ⟨hg 0, hg 1, hg 3, hg 4, hg 5, hg 6, hg 7⟩
  g1 vec vec' out out' hout hout' i g g' hg hg' hown := by
    have hdecode := (vec2Proof_eq_some.1 hout).1 i g hg
    rw [int2G_congr hown, (vec2Proof_eq_some.1 hout').1 i g' hg'] at hdecode
    exact (Option.some_inj.1 hdecode).symm
  g2 vec vec' out out' hout hout' hown hninth := by
    have hdecode := (vec2Proof_eq_some.1 hout).2
    rw [int2G_congr hown, Bigint.val_inj.1 ((val_vec8 vec).trans (hninth.trans (val_vec8 vec').symm)),
      (vec2Proof_eq_some.1 hout').2] at hdecode
    exact (Option.some_inj.1 hdecode).symm

/-- What comes back of a proof on its curves. -/
lemma OnCurves.vec2Proof (h : OnCurves proof) : ∃ vec, Wire.proof2Vec S proof = some vec ∧
    vec2Proof S (wireVec vec) = some (proof.map (decoded S.G1) (decoded S.G2)) := by
  obtain ⟨vec, hvec, hg1, hg2, hninth⟩ := h.proof2Vec
  refine ⟨vec, hvec, vec2Proof_eq_some.2 ⟨fun i g hmem => ?_, ?_⟩⟩
  · rw [g1Points_map] at hmem
    obtain ⟨⟨i', g'⟩, hmem', heq⟩ := List.mem_map.1 hmem
    obtain ⟨rfl, rfl⟩ := Prod.mk.injEq .. ▸ heq
    obtain ⟨hi, hown⟩ := hg1 i' g' hmem'
    rw [wireVec_of_lt hi]
    exact (h.g1 i' g' hmem').int2G hown (by decide) fun x x1 hx _ => set_fp _ hx
  · rw [wireVec_of_lt (by decide)]
    refine h.g2.int2G hg2 ?_ fun x x1 hx hx1 => set_fp2 _ hx (hx1.trans ?_)
    · rw [val_vec8, hninth]
      exact (h.g2.small 1).1
    · rw [val_vec8, hninth]

/-- All points come back, unless the y coordinate of the one of the second group has a first component of 0 and its
square root is the wrong one. -/
lemma OnCurves.roundTrips_iff (h : OnCurves proof) : RoundTrips proof ↔
    ((S.G2.affineCoordinates proof.bG).y.re = 0 →
      S.G2.sqrt ((S.G2.affineCoordinates proof.bG).y * (S.G2.affineCoordinates proof.bG).y) =
        (S.G2.affineCoordinates proof.bG).y) := by
  rw [← h.g2.decoded_fp2_iff]
  obtain ⟨vec, hvec, hout⟩ := h.vec2Proof
  constructor
  · rintro ⟨vec', out, hvec', hout', haffine⟩
    obtain rfl := Option.some_inj.1 (hvec.symm.trans hvec')
    obtain rfl := Option.some_inj.1 (hout.symm.trans hout')
    exact congrArg Proof.bG haffine
  · intro hbG
    refine ⟨vec, _, hvec, hout, ?_⟩
    obtain ⟨h0, h1, h3, h4, h5, h6, h7⟩ := forall_g1Points.1 fun i g hmem => (h.g1 i g hmem).decoded_fp
    simp only [Proof.affine, Proof.map, hbG, h0, h1, h3, h4, h5, h6, h7]

/-- Proofs come back and no bit of a number gets into the point of another one, unless the y coordinate of the point of
the second group has no sign and its square root is the wrong one. -/
theorem compressProof_lossless_iff (S : Pairing) (proof : Proof S) (h : OnCurves proof) :
    RoundTrips proof ∧ NoLeak S ↔ ((S.G2.affineCoordinates proof.bG).y.re = 0 →
      S.G2.sqrt ((S.G2.affineCoordinates proof.bG).y * (S.G2.affineCoordinates proof.bG).y) =
        (S.G2.affineCoordinates proof.bG).y) :=
  (and_iff_left (noLeak S)).trans h.roundTrips_iff

end Proofs

section Bn128
variable {x y : Fq2}

/-- A proof with the generator of the first group, and a point of the second one. -/
noncomputable def generatorProof (x y : Fq2) : Proof bn128 :=
  ⟨⟨1, 2, 1⟩, ⟨1, 2, 1⟩, ⟨x, y, 1⟩, ⟨1, 2, 1⟩, ⟨1, 2, 1⟩, ⟨1, 2, 1⟩, ⟨1, 2, 1⟩, ⟨1, 2, 1⟩⟩

lemma affine_generatorProof (x y : Fq2) : bn128.G2.affineCoordinates (generatorProof x y).bG = ⟨x, y, 1⟩ :=
  bn128.G2.affineCoordinates_one x y

lemma onCurves_generatorProof (hcurve : y * y = x * x * x + twistCoeff) : OnCurves (generatorProof x y) where
  g1 := by
    have hgenerator : OnCurve bn128.G1 ⟨1, 2, 1⟩ := by
      have haffine : bn128.G1.affineCoordinates ⟨1, 2, 1⟩ = ⟨1, 2, 1⟩ := bn128.G1.affineCoordinates_one 1 2
      refine ⟨?_, ?_, fun i => ?_⟩
      · rw [haffine]
        exact decide_eq_false (one_ne_zero (α := Fq))
      · rw [haffine]
        change (2 * 2 : Fq) = 1 * 1 * 1 + 3
        decide +kernel
      · rw [val_get_fp, val_get_fp]
        exact ⟨(ZMod.val_lt _).trans (by decide), (ZMod.val_lt _).trans (by decide)⟩
    exact forall_g1Points.2
      ⟨hgenerator, hgenerator, hgenerator, hgenerator, hgenerator, hgenerator, hgenerator⟩
  g2 := by
    have hlt : ∀ (a : Fq2) (i : ℕ), (if i = 0 then a.re.val else a.im.val) < 2^254 := fun a i => by
      split_ifs
      · exact (ZMod.val_lt a.re).trans (by decide)
      · exact (ZMod.val_lt a.im).trans (by decide)
    refine ⟨?_, ?_, fun i => ?_⟩
    · rw [affine_generatorProof]
      exact decide_eq_false (one_ne_zero (α := Fq2))
    · rw [affine_generatorProof]
      exact hcurve
    · rw [val_get_fp2, val_get_fp2]
      exact ⟨hlt _ i, hlt _ i⟩

/-- The generators of the groups come back. -/
theorem compressProof_lossless_generators :
    RoundTrips (generatorProof
        ⟨10857046999023057135944570762232829481370756359578518086990519993285655852781,
          11559732032986387107991004021392285783925812861821192530917403151452391805634⟩
        ⟨8495653923123431417604973247489272438418190587263600148770280649306958101930,
          4082367875863433681332203403145435568316851327593401208105741076214120093531⟩) ∧ NoLeak bn128 := by
  refine (compressProof_lossless_iff bn128 _ (onCurves_generatorProof (by decide +kernel))).2 fun hre => ?_
  rw [affine_generatorProof] at hre
  exact absurd hre (by decide +kernel)

/-- The x coordinate of two points of the second group with y coordinates of which the first component is 0. -/
def signlessX : Fq2 :=
  ⟨2347429907930942971111655353872146944288676477812883217018820075284184868097,
    14411806371211556537412764382325190848789206122849649094465435622260654449378⟩

/-- Whichever square root of -4 is taken, the point with the other one is lost. -/
theorem not_compressProof_lossless : ∃ y : Fq2, (y = ⟨0, 2⟩ ∨ y = ⟨0, -2⟩) ∧
    OnCurves (generatorProof signlessX y) ∧ ¬(RoundTrips (generatorProof signlessX y) ∧ NoLeak bn128) := by
  have hlost : ∀ y : Fq2, y * y = ⟨-4, 0⟩ → y.re = 0 → bn128.G2.sqrt (⟨-4, 0⟩ : Fq2) ≠ y →
      OnCurves (generatorProof signlessX y) ∧ ¬(RoundTrips (generatorProof signlessX y) ∧ NoLeak bn128) := by
    intro y hy hre hroot
    have hcurves : OnCurves (generatorProof signlessX y) := onCurves_generatorProof (hy.trans (by decide +kernel))
    refine ⟨hcurves, fun h => hroot ?_⟩
    have hback := hcurves.roundTrips_iff.1 h.1
    rw [affine_generatorProof] at hback
    rw [← hy]
    exact hback hre
  by_cases hroot : bn128.G2.sqrt (⟨-4, 0⟩ : Fq2) = (⟨0, 2⟩ : Fq2)
  · exact ⟨⟨0, -2⟩, .inr rfl, hlost _ (by decide +kernel) rfl (by rw [hroot]; decide +kernel)⟩
  · exact ⟨⟨0, 2⟩, .inl rfl, hlost _ (by decide +kernel) rfl hroot⟩

end Bn128

end CredaCash.Wire
