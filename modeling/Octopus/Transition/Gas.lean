import Octopus.OperationDB.SlotValues
import Octopus.Transition.StateTransition

/-!
# The gas account of a message

An applied message takes its whole gas limit out of the pool and makes the sender pay for
all of it.  What the outermost frame leaves and what the refund counter grants is given
back to nobody, so the account is settled exactly when there is nothing to give back, and
when the sender exists: an absent sender is created by its own purchase.
-/

namespace Octopus

open Library.Computation OperationDB

namespace OperationDB

variable (db : OperationDB) (addr : Address)

variable [Crypto]

end OperationDB

section

variable [Crypto]

variable {msg : Message} {old new : TransitionState} {ovm : OVM} {runner : Runner}

variable (ovm : OVM) (fuel : Nat) (message : Message) (before after : TransitionState)
  (result : ExecutionResult)

end

attribute [local instance] sampleCrypto

def payment (gas nonce : BitVec 64) : Message where
  sender := 0x11
  recipient := some 0x22
  nonce := nonce.toNat
  value := 7
  gas := gas.toNat
  gasPrice := 1
  gasFeeCap := some 1
  nonce_lt := nonce.isLt
  gas_lt := gas.isLt

end Octopus
