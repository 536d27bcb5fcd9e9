import ErgoNode.Chain.Types
import ErgoNode.Lib.Entries

/-!
# The box tracker

The boxes of the tracked addresses, a list for each address. Nothing keeps a box from being in these lists more
than once. Amounts wrap around when they are added up.
-/

namespace ErgoNode
open Lib

structure WalletBox where
  boxId : Bytes
  value : UInt64
  tokens : List (Bytes × UInt64)
  creationHeight : UInt32
  address : String
  pendingSpent : Bool
  deriving DecidableEq

structure WalletBalance where
  totalErg : UInt64
  confirmedErg : UInt64
  pendingErg : UInt64
  tokens : Table Bytes UInt64

namespace WalletBalance

def empty : WalletBalance := ⟨0, 0, 0, ∅⟩

def addToken (tokens : Table Bytes UInt64) (token : Bytes × UInt64) : Table Bytes UInt64 :=
  tokens.insert token.1 ((tokens.lookup token.1).getD 0 + token.2)

def addBox (balance : WalletBalance) (walletBox : WalletBox) : WalletBalance := { balance with
  totalErg := balance.totalErg + walletBox.value
  confirmedErg := balance.confirmedErg + walletBox.value
  tokens := walletBox.tokens.foldl addToken balance.tokens }

end WalletBalance

structure BoxTracker where
  addresses : List String
  boxes : Table String (List WalletBox)

namespace BoxTracker

def new : BoxTracker := ⟨[], ∅⟩

def trackAddressStr (tracker : BoxTracker) (address : String) : BoxTracker :=
  if address ∈ tracker.addresses then tracker
  else ⟨tracker.addresses ++ [address], tracker.boxes.insert address []⟩

def trackAddress (tracker : BoxTracker) (address : Bytes) : BoxTracker := tracker.trackAddressStr (hexEncode address)

def getUnspent (order : Iteration String (List WalletBox)) (tracker : BoxTracker) : List WalletBox :=
  ((order.entries tracker.boxes).flatMap Prod.snd).filter fun walletBox => !walletBox.pendingSpent

def balance (order : Iteration String (List WalletBox)) (tracker : BoxTracker) : WalletBalance :=
  (tracker.getUnspent order).foldl .addBox .empty

def markFirst (boxId : Bytes) : List WalletBox → Option (List WalletBox)
  | [] => none
  | walletBox :: rest =>
      if walletBox.boxId = boxId then some ({ walletBox with pendingSpent := true } :: rest)
      else (markFirst boxId rest).map fun marked => walletBox :: marked

/-- Only the first box of this id that is met is marked. -/
def markSpent (order : Iteration String (List WalletBox)) (tracker : BoxTracker) (boxId : Bytes) : BoxTracker :=
  match (order.entries tracker.boxes).findSome? fun entry => (markFirst boxId entry.2).map fun marked => (entry.1, marked) with
  | none => tracker
  | some (address, marked) => { tracker with boxes := tracker.boxes.insert address marked }

def addBox (tracker : BoxTracker) (address : String) (walletBox : WalletBox) : BoxTracker :=
  match tracker.boxes.lookup address with
  | some addrBoxes => { tracker with boxes := tracker.boxes.insert address (addrBoxes ++ [walletBox]) }
  | none => ⟨tracker.addresses.insert address, tracker.boxes.insert address [walletBox]⟩

def removeSpent (tracker : BoxTracker) (boxIds : List Bytes) : BoxTracker := { tracker with
  boxes := ⟨tracker.boxes.entries.map (.map id fun _ addrBoxes =>
    addrBoxes.filter fun walletBox => !boxIds.contains walletBox.boxId), tracker.boxes.nodupKeys.map₂ _ _⟩ }

end BoxTracker
end ErgoNode
