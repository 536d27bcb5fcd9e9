import ErgoNode.Chain.Types
import ErgoNode.Lib.Effect

/-!
# The key store

The seed lies encrypted in the store. While the store is unlocked it also holds the seed, the master key and
the keys derived so far.
-/

namespace ErgoNode
open Lib

inductive WalletError where
  | notInitialized
  | locked
  | invalidPassword
  | invalidMnemonic (message : String)
  | keyDerivation (message : String)
  | addressNotFound (address : String)
  | txBuildError (message : String)
  | io (message : String)
  deriving DecidableEq

abbrev WalletResult := Except WalletError

inductive NetworkPrefix where
  | mainnet
  | testnet
  deriving DecidableEq

structure MnemonicSeed where
  bytes : Bytes
  length : bytes.length = 64
  deriving DecidableEq

structure EncryptedKey where
  version : UInt8
  encryptedSeed : Bytes
  salt : String
  nonce : Bytes
  memoryCost : UInt32
  timeCost : UInt32
  parallelism : UInt32
  deriving DecidableEq

/-! Keys, paths and addresses as their libraries write them out. -/

abbrev ExtSecretKey := Bytes
abbrev SecretKey := Bytes
abbrev DerivationPath := List UInt32
abbrev ErgoAddress := Bytes

structure KeyLib where
  argon2Params : UInt32 → UInt32 → UInt32 → Except String Unit
  argon2id : (password salt : String) → (memoryCost timeCost parallelism : UInt32) → Except String Bytes
  decrypt : (key nonce ciphertext : Bytes) → Option Bytes
  deriveMaster : MnemonicSeed → Except String ExtSecretKey
  parsePath : String → Except String DerivationPath
  derive : ExtSecretKey → DerivationPath → Except String ExtSecretKey
  secretKey : ExtSecretKey → SecretKey
  publicKey : ExtSecretKey → Except String ErgoAddress
  toBase58 : NetworkPrefix → ErgoAddress → String

structure DerivedKey where
  secretKey : SecretKey
  path : DerivationPath
  address : ErgoAddress
  addressStr : String
  deriving DecidableEq

structure KeyStore where
  encrypted : Option EncryptedKey
  seed : Option MnemonicSeed
  masterKey : Option ExtSecretKey
  network : NetworkPrefix
  derivedKeys : List DerivedKey
  deriving DecidableEq

variable (lib : KeyLib)

def deriveKeyArgon2id (password salt : String) (memoryCost timeCost parallelism : UInt32) : WalletResult Bytes := do
  (lib.argon2Params memoryCost timeCost parallelism).mapError fun e =>
    .keyDerivation s!"Invalid Argon2 params: {e}"
  (lib.argon2id password salt memoryCost timeCost parallelism).mapError fun e =>
    .keyDerivation s!"Argon2id failed: {e}"

namespace KeyStore

def withNetwork (network : NetworkPrefix) : KeyStore := ⟨none, none, none, network, []⟩

def isInitialized (store : KeyStore) : Bool := store.encrypted.isSome

def isUnlocked (store : KeyStore) : Bool := store.seed.isSome

def decryptSeed (encrypted : EncryptedKey) (password : String) : WalletResult (MnemonicSeed × ExtSecretKey) := do
  let decryptionKey ← deriveKeyArgon2id lib password encrypted.salt encrypted.memoryCost encrypted.timeCost
    encrypted.parallelism
  match lib.decrypt decryptionKey encrypted.nonce encrypted.encryptedSeed with
  | none => throw .invalidPassword
  | some decrypted =>
      if length : decrypted.length = 64 then do
        let seed : MnemonicSeed := ⟨decrypted, length⟩
        let masterKey ← (lib.deriveMaster seed).mapError fun _ => WalletError.invalidPassword
        return (seed, masterKey)
      else throw .invalidPassword

def unlock (password : String) : Op KeyStore WalletError Unit := do
  match (← get).encrypted with
  | none => throw .notInitialized
  | some encrypted => do
      let (seed, masterKey) ← MonadExcept.ofExcept (decryptSeed lib encrypted password)
      modify fun store => { store with seed := some seed, masterKey := some masterKey }

def lock (store : KeyStore) : KeyStore := { store with seed := none, masterKey := none, derivedKeys := [] }

def deriveFrom (network : NetworkPrefix) (master : ExtSecretKey) (path : String) : WalletResult DerivedKey := do
  let derivationPath ← (lib.parsePath path).mapError fun e =>
    .keyDerivation s!"Invalid derivation path '{path}': {e}"
  let derived ← (lib.derive master derivationPath).mapError fun e =>
    .keyDerivation s!"Failed to derive key at {path}: {e}"
  let address ← (lib.publicKey derived).mapError fun e => .keyDerivation s!"Failed to get public key: {e}"
  return ⟨lib.secretKey derived, derivationPath, address, lib.toBase58 network address⟩

def deriveKey (store : KeyStore) (path : String) : WalletResult DerivedKey :=
  match store.masterKey with
  | none => .error .locked
  | some master => deriveFrom lib store.network master path

def indexPath (account index : UInt32) : String := s!"m/44'/429'/{account}'/0/{index}"

def deriveKeyForIndex (store : KeyStore) (account index : UInt32) : WalletResult DerivedKey :=
  store.deriveKey lib (indexPath account index)

def cacheDerivedKey (store : KeyStore) (key : DerivedKey) : KeyStore :=
  { store with derivedKeys := store.derivedKeys ++ [key] }

def findSecretKeyByStr (store : KeyStore) (address : String) : Option SecretKey :=
  (store.derivedKeys.find? fun key => key.addressStr == address).map DerivedKey.secretKey

end KeyStore
end ErgoNode
