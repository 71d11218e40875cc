import CredaCash.Wire.Request

/-! The tables of the persistent database that validation reads, and the queries on them. -/

namespace CredaCash.Chain

inductive XmatchStatus
  | void | buyerCancel | sellerCancel | matched | buyerAccepted | sellerAccepted | accepted
  | partPaidOpen | partPaidExpired | paid | unpaidExpired | invalid
  deriving DecidableEq

/-- The sell request of a match; `foreignAddress` is empty once its row is pruned. -/
structure Xmatchreq where
  quoteAsset : ℕ := 0
  foreignAddress : String := ""
  confirmations : ℕ := 0
  paymentTime : ℕ := 0
  deriving DecidableEq

structure Xmatch where
  xmatchnum : ℕ
  status : XmatchStatus
  matchTimestamp : ℕ
  baseAmount : ℕ
  rate : UniFloat
  amountPaid : UniFloat
  haveXreqs : Bool
  xsell : Xmatchreq
  deriving DecidableEq

/-- `AmountToPay` without rounding to the wire. -/
def Xmatch.amountToPay (conv : AmountConv) (m : Xmatch) : UniFloat :=
  if m.status = .paid then 0
  else
    let quote := UniFloat.multiply (conv.asUniFloat m.baseAmount) m.rate 1
    let amount := UniFloat.add quote (-m.amountPaid) 1 false
    if amount < 0 then 0 else amount

/-- A row of `Commit_Roots`. -/
structure CommitRoot where
  level : ℕ
  timestamp : ℕ
  merkleRoot : ℕ
  deriving DecidableEq

/-- A row of `Serialnums`. -/
structure Serialnum where
  serialnum : ℕ
  hashkey : Option ℕ
  txCommitnum : ℕ
  deriving DecidableEq

/-- A row of `Exchange_Matching_Reqs`. -/
structure MatchingReq where
  deleteTime : ℕ
  quoteAsset : ℕ
  foreignAddress : String
  foreignAddressUnique : Bool
  deriving DecidableEq

/-- The persistent database; `Commit_Roots` is kept in the order of its levels. -/
structure PersistentDb where
  serialnums : List Serialnum := []
  commitRoots : List CommitRoot := []
  matches_ : List Xmatch := []
  matchingReqs : List MatchingReq := []
  blockedForeignAddresses : List (ℕ × String) := []

namespace PersistentDb
variable (db : PersistentDb)

def serialnumSelect (serialnum : ℕ) : Option Serialnum :=
  db.serialnums.find? (·.serialnum = serialnum)

/-- The first root at a level or above. -/
def commitRootsSelectLevel (level : ℕ) (orGreater : Bool) : Option CommitRoot :=
  match db.commitRoots.find? (level ≤ ·.level) with
  | none => none
  | some root => if root.level ≠ level ∧ !orGreater then none else some root

def xmatchSelect (xmatchnum : ℕ) : Option Xmatch :=
  db.matches_.find? (·.xmatchnum = xmatchnum)

/-- True if the foreign address is in use by an earlier request. -/
def xmatchingreqForeignAddressSelect (priorBlocktime blockchain : ℕ) (foreignAddress : String) : Bool :=
  db.matchingReqs.any fun r => priorBlocktime ≤ r.deleteTime && r.quoteAsset = blockchain &&
    r.foreignAddress = foreignAddress && r.foreignAddressUnique

def xcxBlockedForeignAddressSelect (blockchain : ℕ) (foreignAddress : String) : Bool :=
  db.blockedForeignAddresses.any (· = (blockchain, foreignAddress))

end PersistentDb

end CredaCash.Chain
