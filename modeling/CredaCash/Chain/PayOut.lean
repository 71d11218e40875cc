import CredaCash.Chain.AmountCodec

/-! `CreateTxOutputs` with all of its endings: what it pays out, and what remains. -/

namespace CredaCash.Chain

/-- How the loop of `CreateTxOutputs` ends. -/
inductive PayOutEnd
  /-- nothing is left of the total -/
  | paid
  /-- what is left is too small for an output -/
  | tooSmall
  | oneOutput
  | shutdown
  | dbFails
  | assertion
  deriving DecidableEq

variable (env : OutputEnv) (asset dest : ℕ) (exponents : ℕ × ℕ) (oneOutput : Bool)

/-- The output that the loop creates of a total. -/
def nextOutput (total : ℕ) : TxOutput := ⟨asset, dest, txAmountEncode total false exponents.1 exponents.2 (2^32 - 1)⟩

/-- The loop of `CreateTxOutputs` for at most some turns: its end, its outputs, and what remains of the total. None when
it does not end. -/
def payOutLoop : ℕ → ℕ → ℕ → Option (PayOutEnd × List TxOutput × ℕ)
  | 0, _, _ => none
  | n+1, index, total =>
    if total = 0 then some (.paid, [], total)
    else if env.shutdown index then some (.shutdown, [], total)
    else
      let output := nextOutput asset dest exponents total
      let amount := txAmountDecode output.amountFp
      if amount = 0 then some (.tooSmall, [], total)
      else if env.dbFails index then some (.dbFails, [], total)
      else if total < amount then some (.assertion, [], total)
      else if oneOutput then some (.oneOutput, [output], total - amount)
      else (payOutLoop n (index + 1) (total - amount)).map fun r => (r.1, output :: r.2.1, r.2.2)

/-- An end without an error. -/
def PayOutEnd.isOk (e : PayOutEnd) : Bool := e ≠ .dbFails && e ≠ .assertion

section Lemmas
variable {env : OutputEnv} {asset dest : ℕ} {exponents : ℕ × ℕ} {oneOutput : Bool} {n index total rest : ℕ}
  {e : PayOutEnd} {outputs : List TxOutput}

lemma nextOutput_down (asset dest : ℕ) (exponents : ℕ × ℕ) (total : ℕ) :
    txAmountDecode (nextOutput asset dest exponents total).amountFp ≤ total ∧
    (txAmountDecode (nextOutput asset dest exponents total).amountFp = 0 →
      total < amountFactor (exponentWindow exponents.1 exponents.2).1) :=
  txAmountEncode_down total exponents.1 exponents.2 (by decide)

/-- An output makes the total smaller, so there are at most as many turns as there are units in the total. -/
lemma payOutLoop_isSome (h : total < n) :
    ∃ r, payOutLoop env asset dest exponents oneOutput n index total = some r := by
  induction n generalizing index total with
  | zero => exact absurd h (Nat.not_lt_zero _)
  | succ n ih =>
    unfold payOutLoop
    dsimp only
    split_ifs with hzero hshutdown hsmall hfails hassert hone
    all_goals try exact ⟨_, rfl⟩
    obtain ⟨r, hr⟩ : ∃ r, payOutLoop env asset dest exponents oneOutput n (index + 1)
      (total - txAmountDecode (nextOutput asset dest exponents total).amountFp) = some r := ih (by omega)
    rw [hr]
    exact ⟨_, rfl⟩

/-- More turns change nothing. -/
lemma payOutLoop_mono {m : ℕ} {r : PayOutEnd × List TxOutput × ℕ} (hle : n ≤ m)
    (h : payOutLoop env asset dest exponents oneOutput n index total = some r) :
    payOutLoop env asset dest exponents oneOutput m index total = some r := by
  induction n generalizing index total r m with
  | zero => cases h
  | succ n ih =>
    obtain ⟨m, rfl⟩ : ∃ k, m = k + 1 := ⟨m - 1, by omega⟩
    unfold payOutLoop at h ⊢
    dsimp only at h ⊢
    split_ifs at h ⊢ with hzero hshutdown hsmall hfails hassert hone
    all_goals try exact h
    obtain ⟨r', hr', rfl⟩ := Option.map_eq_some_iff.1 h
    rw [ih (Nat.le_of_succ_le_succ hle) hr']
    rfl

/-- What the ending of the loop says. -/
structure PaidExactly (exponents : ℕ × ℕ) (oneOutput : Bool) (total : ℕ) (e : PayOutEnd) (outputs : List TxOutput)
    (rest : ℕ) : Prop where
  holds : e ≠ .assertion
  sum : paidOut outputs + rest = total
  single : e = .oneOutput → oneOutput = true
  small : e = .paid ∨ e = .tooSmall → rest < amountFactor (exponentWindow exponents.1 exponents.2).1

lemma payOutLoop_exact (h : payOutLoop env asset dest exponents oneOutput n index total = some (e, outputs, rest)) :
    PaidExactly exponents oneOutput total e outputs rest := by
  induction n generalizing index total outputs with
  | zero => cases h
  | succ n ih =>
    obtain ⟨hle, hsmall⟩ := nextOutput_down asset dest exponents total
    unfold payOutLoop at h
    dsimp only at h
    split_ifs at h with hzero hshutdown hnone hfails hassert hone
    · cases h
      exact ⟨by decide, Nat.zero_add _, fun h => (by cases h), fun _ => hzero ▸ amountFactor_pos _⟩
    · cases h
      exact ⟨by decide, Nat.zero_add _, fun h => (by cases h), fun h => (by rcases h with h | h <;> cases h)⟩
    · cases h
      exact ⟨by decide, Nat.zero_add _, fun h => (by cases h), fun _ => hsmall hnone⟩
    · cases h
      exact ⟨by decide, Nat.zero_add _, fun h => (by cases h), fun h => (by rcases h with h | h <;> cases h)⟩
    · omega
    · cases h
      refine ⟨by decide, ?_, fun _ => hone, fun h => (by rcases h with h | h <;> cases h)⟩
      rw [paidOut_cons, paidOut_nil]
      omega
    · obtain ⟨⟨e', outputs', rest'⟩, hloop, hr⟩ := Option.map_eq_some_iff.1 h
      cases hr
      obtain ⟨hholds, hsum, hsingle, hrest⟩ := ih hloop
      refine ⟨hholds, ?_, hsingle, hrest⟩
      dsimp only at hsum ⊢
      rw [paidOut_cons]
      omega

/-- `CreateTxOutputs` returns what its loop ends with. -/
lemma createTxOutputsLoop_eq (h : total ≤ n) :
    createTxOutputsLoop env asset dest exponents oneOutput n index total =
      (payOutLoop env asset dest exponents oneOutput (n + 1) index total).bind fun r =>
        if r.1.isOk then some r.2 else none := by
  induction n generalizing index total with
  | zero =>
    rw [payOutLoop, if_pos (Nat.le_zero.1 h)]
    rfl
  | succ n ih =>
    rw [createTxOutputsLoop, payOutLoop]
    by_cases hzero : total = 0
    · rw [if_pos (Or.inl hzero), if_pos hzero]
      rfl
    by_cases hshutdown : env.shutdown index = true
    · rw [if_pos (Or.inr hshutdown), if_neg hzero, if_pos hshutdown]
      rfl
    rw [if_neg (not_or.2 ⟨hzero, hshutdown⟩), if_neg hzero, if_neg hshutdown]
    have hdown := (nextOutput_down asset dest exponents total).1
    dsimp only [nextOutput] at hdown ⊢
    split_ifs with hnone hfails hassert hone
    all_goals try rfl
    rw [ih (by omega)]
    cases payOutLoop env asset dest exponents oneOutput (n + 1) (index + 1)
        (total - txAmountDecode (txAmountEncode total false exponents.1 exponents.2 (2^32 - 1))) with
    | none => rfl
    | some r =>
      rw [Option.bind_some, Option.map_some, Option.bind_some]
      dsimp only
      split_ifs <;> rfl

/-- The loop of `CreateTxOutputs` ends for every total and every range of exponents, its assertion holds, and its
outputs and what remains are the total; what remains when it is not stopped is less than any amount that an output could
have. -/
theorem payOutLoop_paysExactly (env : OutputEnv) (asset dest total : ℕ) (exponents : ℕ × ℕ) (oneOutput : Bool) :
    ∃ e outputs rest,
      (∀ n, total < n → payOutLoop env asset dest exponents oneOutput n 0 total = some (e, outputs, rest)) ∧
      e ≠ .assertion ∧ paidOut outputs + rest = total ∧
      (oneOutput = false → e ≠ .shutdown → e ≠ .dbFails →
        ∀ v, Representable false (exponentWindow exponents.1 exponents.2) v → v ≠ 0 → rest < v) := by
  obtain ⟨⟨e, outputs, rest⟩, hloop⟩ : ∃ r, payOutLoop env asset dest exponents oneOutput (total + 1) 0 total = some r :=
    payOutLoop_isSome (Nat.lt_succ_self total)
  obtain ⟨hholds, hsum, hsingle, hsmall⟩ := payOutLoop_exact hloop
  refine ⟨e, outputs, rest, fun n hn => payOutLoop_mono hn hloop, hholds, hsum, fun hmany hrun hdb v hv hpos => ?_⟩
  have hend : e = .paid ∨ e = .tooSmall := by
    cases e with
    | paid => exact Or.inl rfl
    | tooSmall => exact Or.inr rfl
    | oneOutput => exact absurd (hmany.symm.trans (hsingle rfl)) (by decide)
    | shutdown => exact absurd rfl hrun
    | dbFails => exact absurd rfl hdb
    | assertion => exact absurd rfl hholds
  obtain ⟨e', k, hlo, -, -, rfl⟩ := hv.exists_mul (exponentWindow_le _ _)
  have hk : 1 ≤ k := Nat.pos_of_ne_zero fun hzero => hpos (by rw [hzero, Nat.zero_mul])
  calc rest < amountFactor (exponentWindow exponents.1 exponents.2).1 := hsmall hend
    _ ≤ amountFactor e' := amountFactor_le hlo
    _ ≤ k * amountFactor e' := Nat.le_mul_of_pos_left _ hk

/-- `CreateTxOutputs` returns what is paid exactly, unless the database fails. -/
theorem createTxOutputs_eq (env : OutputEnv) (asset total dest : ℕ) (oneOutput isMint : Bool) (hdest : dest ≠ 0) :
    createTxOutputs env asset total dest oneOutput isMint =
      (payOutLoop env asset dest (env.exponents asset isMint) oneOutput (total + 1) 0 total).bind fun r =>
        if r.1.isOk then some r.2 else none := by
  rw [createTxOutputs, if_neg hdest]
  exact createTxOutputsLoop_eq (le_refl total)

/-- A shutdown leaves an amount that could have been paid. -/
theorem shutdown_leavesAmount : payOutLoop ⟨0, 31, fun _ => true, fun _ => false⟩ 0 7 (0, 31) false 2 0 1 =
    some (.shutdown, [], 1) ∧ ¬ ∀ v, Representable false (exponentWindow 0 31) v → v ≠ 0 → 1 < v := by
  refine ⟨by decide, fun h => ?_⟩
  exact absurd (h 1 (Or.inr ⟨32, by decide, by decide, by decide, by decide⟩) (by decide)) (lt_irrefl 1)

end Lemmas

end CredaCash.Chain
