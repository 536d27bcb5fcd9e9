import ErgoNode.Wallet.KeyStore
import ErgoNode.Wallet.Tracker

/-!
# The wallet

Addresses are numbered. Some are made when the wallet is unlocked, further ones when they are asked for.
-/

namespace ErgoNode
open Lib

structure WalletConfig where
  preGenerate : Nat
  defaultAccount : UInt32
  network : NetworkPrefix
  deriving DecidableEq

def WalletConfig.default : WalletConfig := ⟨20, 0, .mainnet⟩

def WalletConfig.testnet : WalletConfig := { WalletConfig.default with network := .testnet }

structure Wallet where
  config : WalletConfig
  keystore : KeyStore
  tracker : BoxTracker
  nextIndex : UInt32

namespace Wallet
variable (lib : KeyLib)

def new (config : WalletConfig) : Wallet := ⟨config, .withNetwork config.network, .new, 0⟩

def keepKey (wallet : Wallet) (key : DerivedKey) : Wallet :=
  { wallet with
    keystore := wallet.keystore.cacheDerivedKey key
    tracker := wallet.tracker.trackAddressStr key.addressStr }

def generateAddresses (count : Nat) : Op Wallet WalletError Unit := do
  let startIndex := (← get).nextIndex
  Op.forEach (fun i => do
    let wallet ← get
    let key ← MonadExcept.ofExcept
      (wallet.keystore.deriveKeyForIndex lib wallet.config.defaultAccount (startIndex + UInt32.ofNat i))
    modify fun wallet => wallet.keepKey key) (List.range count)
  modify fun wallet => { wallet with nextIndex := startIndex + UInt32.ofNat count }

def unlock (password : String) : Op Wallet WalletError Unit := do
  Op.zoom Wallet.keystore (fun keystore wallet => { wallet with keystore }) (KeyStore.unlock lib password)
  generateAddresses lib (← get).config.preGenerate

def lock (wallet : Wallet) : Wallet := { wallet with keystore := wallet.keystore.lock, nextIndex := 0 }

def whenUnlocked {A : Type} (body : Op Wallet WalletError A) : Op Wallet WalletError A := do
  if (← get).keystore.isUnlocked then body else throw .locked

def newAddress : Op Wallet WalletError String := whenUnlocked do
  let wallet ← get
  let index := wallet.nextIndex
  let key ← MonadExcept.ofExcept (wallet.keystore.deriveKeyForIndex lib wallet.config.defaultAccount index)
  modify fun wallet => { wallet.keepKey key with nextIndex := index + 1 }
  return key.addressStr

def deriveAddress (path : String) : Op Wallet WalletError String := whenUnlocked do
  let wallet ← get
  let key ← MonadExcept.ofExcept (wallet.keystore.deriveKey lib path)
  modify fun wallet => wallet.keepKey key
  return key.addressStr

def getSecretKey (wallet : Wallet) (address : String) : WalletResult SecretKey :=
  if ¬ wallet.keystore.isUnlocked then .error .locked
  else match wallet.keystore.findSecretKeyByStr address with
    | some key => .ok key
    | none => .error (.addressNotFound address)

end Wallet
end ErgoNode

/-!
### The wallet and its secret file

The encrypted seed is written to a file when the wallet is initialized, and read back when it is loaded. Whether a
wallet is initialized is judged by what it has in memory.
-/

namespace ErgoNode
open Lib

structure WalletLib extends KeyLib where
  toSeed : (mnemonic mnemonicPassword : String) → MnemonicSeed
  encrypt : (key nonce plaintext : Bytes) → Except String Bytes
  toJson : EncryptedKey → Except String Bytes
  fromJson : Bytes → Except String EncryptedKey

/-! ### Words -/

def isWhitespace (c : Char) : Bool :=
  (0x9 ≤ c.val ∧ c.val ≤ 0xD) ∨ (0x2000 ≤ c.val ∧ c.val ≤ 0x200A) ∨
    c.val ∈ [0x20, 0x85, 0xA0, 0x1680, 0x2028, 0x2029, 0x202F, 0x205F, 0x3000]

def wordCount (text : String) : Nat := ((text.toList.splitOnP isWhitespace).filter (· ≠ [])).length

def wordCounts : List Nat := [12, 15, 18, 21, 24]

def mnemonicWords : List String :=
  ["abandon", "ability", "able", "about", "above", "absent", "absorb", "abstract", "absurd", "abuse", "access",
    "accident", "account", "accuse", "achieve", "acid", "acoustic", "acquire", "across", "act", "action", "actor",
    "actress", "actual", "adapt", "add", "addict", "address", "adjust", "admit", "adult", "advance", "advice",
    "aerobic", "affair", "afford", "afraid", "again", "age", "agent", "agree", "ahead", "aim", "air", "airport",
    "aisle", "alarm", "album", "alcohol", "alert", "alien", "all", "alley", "allow", "almost", "alone", "alpha",
    "already", "also", "alter", "always", "amateur", "amazing", "among", "amount", "amused", "analyst", "anchor",
    "ancient", "anger", "angle", "angry", "animal", "ankle", "announce", "annual", "another", "answer", "antenna",
    "antique", "anxiety", "any", "apart", "apology", "appear", "apple", "approve", "april", "arch", "arctic", "area",
    "arena", "argue", "arm", "armed", "armor", "army", "around", "arrange", "arrest"]

def generateRandomMnemonic (draws : Fin 12 → Nat) : String :=
  " ".intercalate (List.ofFn fun i => mnemonicWords.getD (draws i % mnemonicWords.length) "")

/-! ### The file system -/

/-- Opening a file for writing empties it; what is written after that may be cut short. -/
inductive WriteOutcome where
  | written
  | refused (error : String)
  | cut (length : Nat) (error : String)
  deriving DecidableEq

structure InitEnv where
  createDirAll : Except String Unit
  salt : String
  nonce : Bytes
  write : WriteOutcome

structure LoadEnv where
  visible : Bool
  read : Except String Unit

structure KeyFile where
  store : KeyStore
  file : Option Bytes

namespace KeyFile
variable (lib : WalletLib)

def encryptionVersion : UInt8 := 1

def encryptSeed (env : InitEnv) (seed : MnemonicSeed) (password : String) : WalletResult EncryptedKey := do
  let encryptionKey ← deriveKeyArgon2id lib.toKeyLib password env.salt 65536 3 4
  let encryptedSeed ← (lib.encrypt encryptionKey env.nonce seed.bytes).mapError fun e =>
    .keyDerivation s!"Encryption failed: {e}"
  return ⟨encryptionVersion, encryptedSeed, env.salt, env.nonce, 65536, 3, 4⟩

def writeFile (outcome : WriteOutcome) (content : Bytes) : Op KeyFile WalletError Unit :=
  match outcome with
  | .written => modify fun keys => { keys with file := some content }
  | .refused error => throw (.io error)
  | .cut length error => do
      modify fun keys => { keys with file := some (content.take length) }
      throw (.io error)

/-- The encrypted seed is in the store before it is in the file. -/
def encryptAndStoreSeed (env : InitEnv) (seed : MnemonicSeed) (password : String) : Op KeyFile WalletError Unit := do
  let encrypted ← MonadExcept.ofExcept (encryptSeed lib env seed password)
  modify fun keys => { keys with store := { keys.store with encrypted := some encrypted } }
  let json ← MonadExcept.ofExcept ((lib.toJson encrypted).mapError WalletError.io)
  writeFile env.write json

def initializeFromMnemonic (env : InitEnv) (mnemonic mnemonicPassword encryptionPassword : String) :
    Op KeyFile WalletError Unit := do
  if wordCount mnemonic ∉ wordCounts then
    throw (.invalidMnemonic
      s!"Invalid word count: {wordCount mnemonic}. Expected 12, 15, 18, 21, or 24 words.")
  else
    let seed := lib.toSeed mnemonic mnemonicPassword
    let masterKey ← MonadExcept.ofExcept ((lib.deriveMaster seed).mapError fun e =>
      WalletError.keyDerivation s!"Failed to derive master key: {e}")
    encryptAndStoreSeed lib env seed encryptionPassword
    modify fun keys => { keys with store := { keys.store with seed := some seed, masterKey := some masterKey } }

def load (env : LoadEnv) : Op KeyFile WalletError Unit := do
  match (← get).file with
  | none => throw .notInitialized
  | some content =>
      if env.visible then
        MonadExcept.ofExcept (env.read.mapError WalletError.io)
        let encrypted ← MonadExcept.ofExcept ((lib.fromJson content).mapError WalletError.io)
        modify fun keys => { keys with store := { keys.store with encrypted := some encrypted } }
      else throw .notInitialized

end KeyFile

structure WalletOnDisk where
  wallet : Wallet
  secretFile : Option Bytes

namespace WalletOnDisk
variable (lib : WalletLib)

def start (config : WalletConfig) (secretFile : Option Bytes) : WalletOnDisk := ⟨.new config, secretFile⟩

def onKeyFile {A : Type} : Op KeyFile WalletError A → Op WalletOnDisk WalletError A :=
  Op.zoom (fun s => ⟨s.wallet.keystore, s.secretFile⟩) fun keys s =>
    { s with wallet := { s.wallet with keystore := keys.store }, secretFile := keys.file }

def onWallet {A : Type} : Op Wallet WalletError A → Op WalletOnDisk WalletError A :=
  Op.zoom WalletOnDisk.wallet fun wallet s => { s with wallet }

def init (env : InitEnv) (mnemonic mnemonicPassword encryptionPassword : String) :
    Op WalletOnDisk WalletError String := do
  if (← get).wallet.keystore.isInitialized then throw (.txBuildError "Wallet already initialized")
  else
    MonadExcept.ofExcept (env.createDirAll.mapError WalletError.io)
    onKeyFile (KeyFile.initializeFromMnemonic lib env mnemonic mnemonicPassword encryptionPassword)
    onWallet (Wallet.generateAddresses lib.toKeyLib (← get).wallet.config.preGenerate)
    return mnemonic

def initNew (env : InitEnv) (draws : Fin 12 → Nat) (encryptionPassword : String) :
    Op WalletOnDisk WalletError String := do
  let mnemonic := generateRandomMnemonic draws
  let _ ← init lib env mnemonic "" encryptionPassword
  return mnemonic

def load (env : LoadEnv) : Op WalletOnDisk WalletError Unit := onKeyFile (KeyFile.load lib env)

end WalletOnDisk
end ErgoNode
