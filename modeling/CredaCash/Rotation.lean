import Mathlib.Data.Nat.ModEq
import Mathlib.Data.Finset.Card
import Mathlib.Algebra.BigOperators.Group.List.Basic
import Mathlib.Tactic.Ring

/-! Turns around a circle of `n` places: each turn goes on by one place, and by the places it skips. -/

namespace Rotation

variable {n : ℕ}

/-- A turn, with its place and the number of places it skips. -/
structure Turn where
  place : ℕ
  skip : ℕ

/-- A turn follows an earlier one. -/
def Follows (n : ℕ) (turn prior : Turn) : Prop := turn.place ≡ prior.place + (1 + turn.skip) [MOD n]

/-- The places that the turns of a list, the newest first, go over. -/
def distance (turns : List Turn) : ℕ := turns.length + (turns.map (·.skip)).sum

@[simp] lemma distance_nil : distance [] = 0 := rfl

@[simp] lemma distance_cons (turn : Turn) (turns : List Turn) :
    distance (turn :: turns) = 1 + turn.skip + distance turns := by
  simp only [distance, List.length_cons, List.map_cons, List.sum_cons]
  ring

/-- The newest turn is ahead of each earlier one by some places, which are less than all of them go over. -/
lemma ahead {turn : Turn} {turns : List Turn} (h : (turn :: turns).IsChain (Follows n)) :
    ∀ prior ∈ turns, ∃ d, 0 < d ∧ d < distance (turn :: turns) ∧ turn.place ≡ prior.place + d [MOD n] := by
  induction turns generalizing turn with
  | nil => exact fun _ h => (by cases h)
  | cons next rest ih =>
    obtain ⟨hnext, hrest⟩ := List.isChain_cons_cons.1 h
    intro prior hprior
    rcases List.mem_cons.1 hprior with rfl | hmem
    · refine ⟨1 + turn.skip, by omega, ?_, hnext⟩
      simp only [distance_cons]
      omega
    · obtain ⟨d, hpos, hlt, hmod⟩ := ih hrest prior hmem
      refine ⟨d + (1 + turn.skip), by omega, ?_, ?_⟩
      · rw [distance_cons]
        omega
      · calc turn.place ≡ next.place + (1 + turn.skip) [MOD n] := hnext
          _ ≡ prior.place + d + (1 + turn.skip) [MOD n] := hmod.add_right _
          _ = prior.place + (d + (1 + turn.skip)) := by ring

/-- Turns that go around the circle at most once are at different places. -/
theorem places_nodup {turns : List Turn} (h : turns.IsChain (Follows n)) (hround : distance turns ≤ n) :
    (turns.map (·.place)).Nodup := by
  induction turns with
  | nil => exact List.nodup_nil
  | cons turn rest ih =>
    rw [List.map_cons, List.nodup_cons]
    refine ⟨fun hmem => ?_, ih h.of_cons (by rw [distance_cons] at hround; omega)⟩
    obtain ⟨prior, hprior, heq⟩ := List.mem_map.1 hmem
    obtain ⟨d, hpos, hlt, hmod⟩ := ahead h prior hprior
    have hzero : prior.place + 0 ≡ prior.place + d [MOD n] := by
      simpa only [Nat.add_zero, heq] using hmod
    have hdvd := (Nat.modEq_iff_dvd' (Nat.zero_le d)).1 (Nat.ModEq.add_left_cancel' _ hzero)
    exact absurd (Nat.le_of_dvd (by omega) hdvd) (by omega)

/-- Two sets of different places have in common what they have together over `n`. -/
theorem common_places {xs ys : List ℕ} (hxs : xs.Nodup) (hys : ys.Nodup) (hltx : ∀ x ∈ xs, x < n)
    (hlty : ∀ y ∈ ys, y < n) : xs.length + ys.length ≤ n + (xs.toFinset ∩ ys.toFinset).card := by
  have hunion : (xs.toFinset ∪ ys.toFinset).card ≤ n := by
    refine (Finset.card_le_card (t := Finset.range n) fun x hx => ?_).trans_eq (Finset.card_range n)
    rcases Finset.mem_union.1 hx with hx | hx
    · exact Finset.mem_range.2 (hltx x (List.mem_toFinset.1 hx))
    · exact Finset.mem_range.2 (hlty x (List.mem_toFinset.1 hx))
  have hsum := Finset.card_union_add_card_inter xs.toFinset ys.toFinset
  rw [List.toFinset_card_of_nodup hxs, List.toFinset_card_of_nodup hys] at hsum
  omega

end Rotation
