import Mathlib.Data.Nat.Init
import Mathlib.Algebra.Order.Group.Nat
import Mathlib.Tactic.SplitIfs

/-! Chains of values, each of which is derived from the one above it, and which some places of the chain are given. -/

namespace Derivation
variable {α : Type*}

/-- A place of a chain; the value of an absent one means nothing. -/
structure Slot (α : Type*) where
  present : Bool
  value : α
  deriving DecidableEq

/-- An absent place takes the value that follows from the place above it. -/
def Slot.fill (derive : α → α) (cur above : Slot α) : Slot α :=
  if cur.present then cur else if above.present then ⟨true, derive above.value⟩ else cur

variable (derive : ℕ → α → α) (given : ℕ → Slot α)

/-- The chain filled in from its top. -/
def filled : ℕ → Slot α
  | 0 => given 0
  | n+1 => (given (n+1)).fill (derive n) (filled n)

/-- The value that follows a number of places below. -/
def descend (i : ℕ) (v : α) : ℕ → α
  | 0 => v
  | k+1 => derive (i + k) (descend i v k)

/-- The given place that is nearest above. -/
structure NearestAbove (i n : ℕ) : Prop where
  lt : i < n
  present : (given i).present
  between : ∀ k, i < k → k < n → (given k).present = false

/-- Given values follow from the nearest ones above them. -/
def Consistent (L : ℕ) : Prop := ∀ i n, n ≤ L → NearestAbove given i n → (given n).present →
  (given n).value = descend derive i (given i).value (n - i)

/-- Given values follow from what has been filled in above them. -/
def Fits (L : ℕ) : Prop := ∀ n < L, (filled derive given n).present → (given (n+1)).present →
  (given (n+1)).value = derive n (filled derive given n).value

/-- The highest given place. -/
structure Highest (h : ℕ) : Prop where
  present : (given h).present
  above : ∀ k < h, (given k).present = false

variable {derive given}

@[simp] lemma filled_of_present {n : ℕ} (h : (given n).present) : filled derive given n = given n := by
  cases n with
  | zero => rfl
  | succ n => rw [filled, Slot.fill, if_pos h]

lemma filled_congr {given' : ℕ → Slot α} {n : ℕ} (h : ∀ k ≤ n, given k = given' k) :
    filled derive given n = filled derive given' n := by
  induction n with
  | zero => exact h 0 le_rfl
  | succ n ih => rw [filled, filled, h (n+1) le_rfl, ih fun k hk => h k (Nat.le_succ_of_le hk)]

lemma filled_succ_of_absent {n : ℕ} (h : (given (n+1)).present = false) (ha : (filled derive given n).present) :
    filled derive given (n+1) = ⟨true, derive n (filled derive given n).value⟩ := by
  rw [filled, Slot.fill, h, if_neg Bool.false_ne_true, if_pos ha]

@[simp] lemma fits_zero : Fits derive given 0 := fun n hn => absurd hn (Nat.not_lt_zero n)

lemma fits_succ {L : ℕ} : Fits derive given (L+1) ↔ Fits derive given L ∧ ((filled derive given L).present →
    (given (L+1)).present → (given (L+1)).value = derive L (filled derive given L).value) := by
  constructor
  · intro h
    exact ⟨fun n hn => h n (Nat.lt_succ_of_lt hn), h L (Nat.lt_succ_self L)⟩
  · rintro ⟨h, hL⟩ n hn
    rcases Nat.lt_succ_iff_lt_or_eq.1 hn with hn | rfl
    · exact h n hn
    · exact hL

/-- Below a given place everything is present. -/
lemma present_of_le (derive : ℕ → α → α) {h n : ℕ} (hh : (given h).present) (hle : h ≤ n) :
    (filled derive given n).present := by
  induction n, hle using Nat.le_induction with
  | base => rwa [filled_of_present hh]
  | succ n _ ih =>
    by_cases hn : (given (n+1)).present
    · rwa [filled_of_present hn]
    · rw [filled_succ_of_absent (Bool.eq_false_iff.2 hn) ih]

/-- Up to the next given place values descend from the last one. -/
lemma filled_descend (derive : ℕ → α → α) {i n : ℕ} (hi : (given i).present) (hle : i ≤ n)
    (hb : ∀ k, i < k → k ≤ n → (given k).present = false) :
    filled derive given n = ⟨true, descend derive i (given i).value (n - i)⟩ := by
  induction n, hle using Nat.le_induction with
  | base =>
    rw [filled_of_present hi, Nat.sub_self, descend, ← hi]
  | succ n hle ih =>
    have hn := ih fun k hik hkn => hb k hik (Nat.le_succ_of_le hkn)
    rw [filled_succ_of_absent (hb (n+1) (Nat.lt_succ_of_le hle) le_rfl) (by rw [hn]), hn, Nat.succ_sub hle, descend,
      Nat.add_sub_cancel' hle]

lemma exists_nearest {n : ℕ} (h : (filled derive given n).present) : ∃ i, NearestAbove given i (n+1) := by
  induction n with
  | zero => exact ⟨0, Nat.one_pos, h, fun k h0 h1 => by omega⟩
  | succ n ih =>
    by_cases hn : (given (n+1)).present
    · exact ⟨n+1, Nat.lt_succ_self _, hn, fun k h0 h1 => by omega⟩
    · have habs : (filled derive given n).present := by
        rw [filled, Slot.fill, if_neg hn] at h
        split_ifs at h with ha
        · exact ha
        · exact absurd h hn
      obtain ⟨i, hlt, hi, hb⟩ := ih habs
      refine ⟨i, Nat.lt_succ_of_lt hlt, hi, fun k hik hk => ?_⟩
      rcases Nat.lt_succ_iff_lt_or_eq.1 hk with hk | rfl
      · exact hb k hik hk
      · exact Bool.eq_false_iff.2 hn

/-- The place above a given one holds what descends from the nearest given one. -/
theorem consistent_iff_fits {L : ℕ} : Consistent derive given L ↔ Fits derive given L := by
  constructor
  · intro h n hn hp hg
    obtain ⟨i, hnear⟩ := exists_nearest hp
    have hle := Nat.le_of_lt_succ hnear.lt
    have hval := filled_descend derive hnear.present hle fun k hik hk => hnear.between k hik (Nat.lt_succ_of_le hk)
    rw [h i (n+1) hn hnear hg, hval, Nat.succ_sub hle, descend, Nat.add_sub_cancel' hle]
  · intro h i n hn hnear hg
    obtain ⟨m, rfl⟩ := Nat.exists_eq_add_of_lt hnear.lt
    have hle : i ≤ i + m := Nat.le_add_right i m
    have hval := filled_descend derive hnear.present hle fun k hik hk => hnear.between k hik (Nat.lt_succ_of_le hk)
    rw [h (i + m) hn (by rw [hval]) hg, hval, Nat.succ_sub hle, descend, Nat.add_sub_cancel' hle]

/-- Each place holds what follows from the place directly above, if that is there. -/
theorem Fits.value_succ {L n : ℕ} (hf : Fits derive given L) (hn : n < L) (hp : (filled derive given n).present) :
    (filled derive given (n+1)).value = derive n (filled derive given n).value := by
  by_cases hg : (given (n+1)).present
  · rw [filled_of_present hg, hf n hn hp hg]
  · rw [filled_succ_of_absent (Bool.eq_false_iff.2 hg) hp]

/-- Above the highest given place nothing changes. -/
lemma Highest.filled_eq {h n : ℕ} (hh : Highest given h) (hn : n < h) : filled derive given n = given n := by
  induction n with
  | zero => rfl
  | succ n ih =>
    have hn' := Nat.lt_of_succ_lt hn
    rw [filled, Slot.fill, if_neg (by rw [hh.above _ hn]; decide), if_neg]
    rw [ih hn', hh.above n hn']
    decide

/-- Chains that are filled in stay as they are. -/
theorem filled_filled (n : ℕ) : filled derive (filled derive given) n = filled derive given n := by
  induction n with
  | zero => rfl
  | succ n ih =>
    by_cases hp : (filled derive given (n+1)).present
    · rw [filled_of_present hp]
    · rw [filled, Slot.fill, if_neg hp, ih, if_neg]
      intro ha
      by_cases hg : (given (n+1)).present
      · exact hp (by rwa [filled_of_present hg])
      · exact hp (by rw [filled_succ_of_absent (Bool.eq_false_iff.2 hg) ha])

end Derivation
