import CredaCash.Zk.ComputeTx

/-! The sums of the circuit of a transaction, which are those of the integers: for each asset the inputs of the key
cover its outputs. -/

namespace CredaCash.Zk
open Chain Circuit FieldBits Spend

variable {c : ZkCounts} {t : HashTable} {pub : TxPayZKPub c} {p : TxNumbers c}

section Bounds

end Bounds

section Balance
variable {gain loss : ℕ}

/-- The sum of the outputs of an asset. -/
def outputTotal (pub : TxPayZKPub c) (p : TxNumbers c) (asset : BitVec txAssetBits) : ℕ :=
  ∑ i, if (p.outputs i).asset = asset then
    txAmountDecode (p.outputs i).amountFp.toNat * (pub.outputs i).multiplier.toNat else 0

end Balance

end CredaCash.Zk
