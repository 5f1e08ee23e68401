import CanisterShell.Principal

/-!
# Accounts of the ledger

An account is a hash of its owner and a subaccount, with a checksum in front.  A neuron's account
belongs to the governance canister, under a subaccount made of its controller and a number.
-/

namespace CanisterShell.Ledger

/-- A text behind its length, which sets hashes of different things apart. -/
def tag (name : String) : Bytes := UInt8.ofNat name.length :: Utf8.encode name

/-- The subaccount that is meant when none is given. -/
def defaultSubaccount : Bytes := List.replicate 32 0

def account (owner : Principal) (subaccount : Bytes) : Bytes :=
  let digest := sha224 (tag "account-id" ++ owner.bytes ++ subaccount)
  Principal.checksum digest ++ digest

/-- The canister that holds the stakes of neurons. -/
def governance : Principal := ⟨[0, 0, 0, 0, 0, 0, 0, 1, 1, 1], by decide⟩

def neuronSubaccount (controller : Principal) (nonce : Nat) : Bytes :=
  sha256 (tag "neuron-stake" ++ controller.bytes ++ Bytes.ofNatBE 8 nonce)

def neuronAccount (controller : Principal) (nonce : Nat) : Bytes :=
  account governance (neuronSubaccount controller nonce)

end CanisterShell.Ledger
