import Cdk.Lib.Table
import Cdk.Nuts.P2pk

/-!
# Proofs as a wallet stores them

A wallet stores a proof with its state and what it was filed under, by the
point `y` of its secret. The stores of SQL and of redb are tables with that
key; all stores filter by the same four optional conditions.
-/

namespace Cdk

open Lib

/-- The proof of equality of discrete logarithms that comes with a proof. -/
structure ProofDleq where
  e : BitVec 256
  s : BitVec 256
  r : BitVec 256
deriving DecidableEq, Repr

/-- A proof as a wallet keeps it. -/
structure WalletProof extends Proof where
  dleq : Option ProofDleq
deriving DecidableEq, Repr

structure ProofInfo where
  proof : WalletProof
  y : PublicKey
  mintUrl : String
  state : State
  spendingCondition : Option SpendingConditions
  unit : CurrencyUnit
deriving DecidableEq, Repr

def ProofInfo.setState (info : ProofInfo) (state : State) : ProofInfo := { info with state := state }

@[simp] theorem ProofInfo.setState_y (info : ProofInfo) (state : State) :
    (info.setState state).y = info.y := rfl

/-- The optional arguments of `get_proofs`. -/
structure ProofFilter where
  mintUrl : Option String
  unit : Option CurrencyUnit
  state : Option (List State)
  spendingConditions : Option (List SpendingConditions)
deriving DecidableEq, Repr

/-- `ProofInfo::matches_conditions`. -/
def ProofInfo.matchesConditions (info : ProofInfo) (filter : ProofFilter) : Bool :=
  filter.mintUrl.all (· == info.mintUrl) &&
  filter.unit.all (· == info.unit) &&
  filter.state.all (·.contains info.state) &&
  filter.spendingConditions.all fun conditions =>
    match info.spendingCondition with
    | none => conditions.isEmpty
    | some condition => conditions.contains condition

/-- A proof of one sat whose point has the given coordinate. -/
def ProofInfo.sample (x : Nat) : ProofInfo where
  proof := ⟨⟨1, .v1 0, toString x, ⟨false, BitVec.ofNat 256 x⟩, none⟩, none⟩
  y := ⟨false, BitVec.ofNat 256 x⟩
  mintUrl := "https://mint.example"
  state := .unspent
  spendingCondition := none
  unit := .sat

/-- Stored proofs, at most one for a point. -/
abbrev ProofTable := Table ProofInfo.y

namespace ProofTable

/-- Write proofs in order, each in the place of the one with its point. -/
def insertAll (t : ProofTable) (added : List ProofInfo) : ProofTable := added.foldl Table.upsert t

/-- Delete the proofs of the points. -/
def removeAll (t : ProofTable) (ys : List PublicKey) : ProofTable :=
  t.delete fun info => ys.contains info.y

end ProofTable

end Cdk
