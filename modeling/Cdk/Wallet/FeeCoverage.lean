import Cdk.Wallet.ExactProofs

/-!
# Covering the fee of a selection

A selection with fees first makes the selection without them. If the proofs of
inactive keysets are enough for that, it ends without a look at the fee.
Otherwise it subtracts the fee from what has been chosen, which panics if the fee
is larger, and selects once more for what is missing.
-/

namespace Cdk

open Lib

namespace Selection

/-! ## The step for the fee -/

section FeeStep

variable {order feeOrder : HashOrder} {amount : Amount} {proofs chosen : List Proof}
  {activeKeysetIds : List Id} {fees : KeysetFeeAndAmounts}

end FeeStep

/-! ## Coverage -/

section Coverage

variable (order feeOrder : HashOrder) (amount : Amount) (proofs : List Proof)
  (activeKeysetIds : List Id) (fees : KeysetFeeAndAmounts)

variable {order feeOrder amount proofs activeKeysetIds fees}

end Coverage

end Selection

end Cdk
