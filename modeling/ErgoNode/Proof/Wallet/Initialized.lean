import ErgoNode.Proof.Wallet.Addresses
import ErgoNode.Wallet.Wallet

/-!
# Initializing a wallet

An initialization notes the encrypted seed before it writes the file and makes addresses after that. One that fails
on the way leaves the wallet initialized, and one that runs where only the file tells of a wallet replaces it.
-/

namespace ErgoNode.Proof.Wallet
open Lib

/-! ### The next addresses -/

section Generated
variable {lib : KeyLib} {wallet : ErgoNode.Wallet}

theorem keeps_generateAddresses (count : Nat) :
    Op.Keeps (fun wallet => wallet.keystore.encrypted) (Wallet.generateAddresses lib count) := by
  refine Op.keeps_get.bind fun start => (Op.Keeps.forEach (fun i => ?_) _).bind fun _ => Op.keeps_modify fun _ => rfl
  exact Op.keeps_get.bind fun _ => (Op.keeps_ofExcept _).bind fun _ => Op.keeps_modify fun _ => rfl

def NextDerivable (lib : KeyLib) (wallet : ErgoNode.Wallet) (count : Nat) : Prop :=
  ∀ i < count, ∃ key, wallet.keystore.deriveKeyForIndex lib wallet.config.defaultAccount
    (wallet.nextIndex + UInt32.ofNat i) = .ok key

theorem exists_forEach_keepKey {start : UInt32} {numbers : List Nat} (derivable : ∀ i ∈ numbers, ∃ key,
      wallet.keystore.deriveKeyForIndex lib wallet.config.defaultAccount (start + UInt32.ofNat i) = .ok key) :
    ∃ after, (Op.forEach (fun i => do
      let wallet ← get
      let key ← MonadExcept.ofExcept
        (wallet.keystore.deriveKeyForIndex lib wallet.config.defaultAccount (start + UInt32.ofNat i))
      modify fun wallet => wallet.keepKey key) numbers : Op ErgoNode.Wallet WalletError Unit).exec wallet =
        (.ok (), after) := by
  induction numbers generalizing wallet with
  | nil => exact ⟨wallet, rfl⟩
  | cons i rest ih =>
      obtain ⟨⟨key, derived⟩, later⟩ := List.forall_mem_cons.mp derivable
      obtain ⟨after, done⟩ := @ih (wallet.keepKey key) later
      refine ⟨after, (Op.exec_forEach_cons_of_ok ?_).trans done⟩
      rw [Op.exec_bind_of_ok (Op.exec_get wallet), derived]
      rfl

theorem nextDerivable_iff {count : Nat} {master : ExtSecretKey} (kept : wallet.keystore.masterKey = some master) :
    NextDerivable lib wallet count ↔ ∀ i < count, ∃ key, indexKey lib wallet.config wallet.keystore.network master
      (wallet.nextIndex + UInt32.ofNat i) = .ok key := by
  simp only [NextDerivable, deriveKeyForIndex_of_master kept, indexKey]

theorem generateAddresses_ok_iff {count : Nat} :
    (∃ after, (Wallet.generateAddresses lib count).exec wallet = (.ok (), after)) ↔ NextDerivable lib wallet count := by
  constructor
  · rintro ⟨after, done⟩ i below
    obtain ⟨keys, pairs, -⟩ := generateAddresses_eq_ok done
    obtain ⟨key, -, derived⟩ := exists_right pairs (List.mem_range.mpr below)
    exact ⟨key, derived⟩
  · intro derivable
    obtain ⟨after, looped⟩ := exists_forEach_keepKey fun i member => derivable i (List.mem_range.mp member)
    unfold Wallet.generateAddresses
    rw [Op.exec_bind_of_ok (Op.exec_get wallet), Op.exec_bind_of_ok looped]
    exact ⟨_, rfl⟩

end Generated

/-! ### The seed and the file -/

section Stored
variable {lib : WalletLib} {env : InitEnv} {mnemonic mnemonicPassword encryptionPassword : String}
variable {encrypted : EncryptedKey} {masterKey : ExtSecretKey} {keys : KeyFile}

/-- Nothing stands against the mnemonic and the password: this is what is to be stored. -/
structure Prepared (lib : WalletLib) (env : InitEnv) (mnemonic mnemonicPassword encryptionPassword : String)
    (encrypted : EncryptedKey) (masterKey : ExtSecretKey) : Prop where
  words : wordCount mnemonic ∈ wordCounts
  master : lib.deriveMaster (lib.toSeed mnemonic mnemonicPassword) = .ok masterKey
  sealed : KeyFile.encryptSeed lib env (lib.toSeed mnemonic mnemonicPassword) encryptionPassword = .ok encrypted

theorem initialize_unprepared
    (unprepared : ∀ encrypted masterKey,
      ¬ Prepared lib env mnemonic mnemonicPassword encryptionPassword encrypted masterKey) :
    ∃ e, (KeyFile.initializeFromMnemonic lib env mnemonic mnemonicPassword encryptionPassword).exec keys =
      (.error e, keys) := by
  unfold KeyFile.initializeFromMnemonic
  rw [Op.exec_ite]
  split
  · exact ⟨_, rfl⟩
  · next words =>
      rw [not_not] at words
      dsimp only
      cases master : lib.deriveMaster (lib.toSeed mnemonic mnemonicPassword) with
      | error e => exact ⟨_, Op.exec_bind_of_error rfl⟩
      | ok masterKey =>
          cases sealed : KeyFile.encryptSeed lib env (lib.toSeed mnemonic mnemonicPassword) encryptionPassword with
          | error e =>
              have failed : (KeyFile.encryptAndStoreSeed lib env (lib.toSeed mnemonic mnemonicPassword)
                  encryptionPassword).exec keys = (.error e, keys) := by
                rw [KeyFile.encryptAndStoreSeed, sealed]
                rfl
              refine ⟨e, ?_⟩
              rw [Except.mapError, Op.exec_bind_of_ok (Op.exec_ofExcept _ _)]
              exact Op.exec_bind_of_error failed
          | ok encrypted => exact absurd ⟨words, master, sealed⟩ (unprepared encrypted masterKey)

/-- What an initialization leaves when the seed has been encrypted: the text is in the file if all went well. -/
theorem encryptAndStoreSeed_cases {seed : MnemonicSeed}
    (sealed : KeyFile.encryptSeed lib env seed encryptionPassword = .ok encrypted) :
    (∃ json, lib.toJson encrypted = .ok json ∧ env.write = .written ∧
      (KeyFile.encryptAndStoreSeed lib env seed encryptionPassword).exec keys =
        (.ok (), ⟨{ keys.store with encrypted := some encrypted }, some json⟩)) ∨
    ¬ (env.write = .written ∧ ∃ json, lib.toJson encrypted = .ok json) ∧ ∃ e file,
      (KeyFile.encryptAndStoreSeed lib env seed encryptionPassword).exec keys =
        (.error e, ⟨{ keys.store with encrypted := some encrypted }, file⟩) := by
  unfold KeyFile.encryptAndStoreSeed
  rw [sealed, Op.exec_bind_of_ok (Op.exec_ofExcept _ _), Op.exec_bind_of_ok (Op.exec_modify _ _)]
  cases json : lib.toJson encrypted with
  | error e => exact .inr ⟨nofun, _, keys.file, rfl⟩
  | ok content =>
      rw [Except.mapError, Op.exec_bind_of_ok (Op.exec_ofExcept _ _)]
      cases outcome : env.write with
      | written => exact .inl ⟨content, rfl, rfl, rfl⟩
      | refused e => exact .inr ⟨nofun, _, keys.file, rfl⟩
      | cut length e => exact .inr ⟨nofun, _, some (content.take length), rfl⟩

theorem initialize_prepared
    (prepared : Prepared lib env mnemonic mnemonicPassword encryptionPassword encrypted masterKey) :
    (∃ json, lib.toJson encrypted = .ok json ∧ env.write = .written ∧
      (KeyFile.initializeFromMnemonic lib env mnemonic mnemonicPassword encryptionPassword).exec keys =
        (.ok (), ⟨{ keys.store with
          encrypted := some encrypted, seed := some (lib.toSeed mnemonic mnemonicPassword), masterKey := some masterKey },
          some json⟩)) ∨
    ¬ (env.write = .written ∧ ∃ json, lib.toJson encrypted = .ok json) ∧ ∃ e file,
      (KeyFile.initializeFromMnemonic lib env mnemonic mnemonicPassword encryptionPassword).exec keys =
        (.error e, ⟨{ keys.store with encrypted := some encrypted }, file⟩) := by
  unfold KeyFile.initializeFromMnemonic
  rw [Op.exec_ite, if_neg (not_not.mpr prepared.words)]
  dsimp only
  rw [prepared.master, Except.mapError, Op.exec_bind_of_ok (Op.exec_ofExcept _ _)]
  rcases encryptAndStoreSeed_cases prepared.sealed with ⟨json, text, written, done⟩ | ⟨unwritten, e, file, failed⟩
  · refine .inl ⟨json, text, written, ?_⟩
    rw [Op.exec_bind_of_ok done]
    rfl
  · exact .inr ⟨unwritten, e, file, Op.exec_bind_of_error failed⟩

end Stored

/-! ### One initialization -/

/-- A call from `before` to `after`: a secret file is still there as it was, and an error has left no trace. -/
structure Safe {A : Type} (before : WalletOnDisk) (result : WalletResult A) (after : WalletOnDisk) : Prop where
  kept : ∀ content, before.secretFile = some content → after.secretFile = some content
  undone : ∀ e, result = .error e →
    after.wallet.keystore.isInitialized = before.wallet.keystore.isInitialized ∧
      after.wallet.keystore.isUnlocked = before.wallet.keystore.isUnlocked ∧ after.secretFile = before.secretFile

section Init
variable {lib : WalletLib} {env : InitEnv} {mnemonic mnemonicPassword encryptionPassword : String}
variable {s after : WalletOnDisk} {encrypted : EncryptedKey} {masterKey : ExtSecretKey}

theorem safe_unchanged {A : Type} {result : WalletResult A} : Safe s result s where
  kept _ there := there
  undone _ _ := ⟨rfl, rfl, rfl⟩

/-- Once the seed is encrypted, the rest goes through, and leaves this text in the file. -/
structure Completes (lib : WalletLib) (env : InitEnv) (s : WalletOnDisk) (encrypted : EncryptedKey)
    (masterKey : ExtSecretKey) (json : Bytes) : Prop where
  written : env.write = .written
  text : lib.toJson encrypted = .ok json
  derivable : ∀ i < s.wallet.config.preGenerate, ∃ key, indexKey lib.toKeyLib s.wallet.config s.wallet.keystore.network
    masterKey (s.wallet.nextIndex + UInt32.ofNat i) = .ok key

theorem exec_init_of_fresh (fresh : s.wallet.keystore.isInitialized = false) (created : env.createDirAll = .ok ()) :
    (WalletOnDisk.init lib env mnemonic mnemonicPassword encryptionPassword).exec s = (do
      WalletOnDisk.onKeyFile (KeyFile.initializeFromMnemonic lib env mnemonic mnemonicPassword encryptionPassword)
      WalletOnDisk.onWallet (Wallet.generateAddresses lib.toKeyLib (← get).wallet.config.preGenerate)
      return mnemonic : Op WalletOnDisk WalletError String).exec s := by
  unfold WalletOnDisk.init
  rw [Op.exec_bind_of_ok (Op.exec_get s), Op.exec_ite, if_neg (by simp [fresh]), created, Except.mapError,
    Op.exec_bind_of_ok (Op.exec_ofExcept _ _)]

def storedIn (s : WalletOnDisk) (encrypted : EncryptedKey) (seed : MnemonicSeed) (masterKey : ExtSecretKey)
    (json : Bytes) : WalletOnDisk where
  wallet := { s.wallet with
    keystore := { s.wallet.keystore with encrypted := some encrypted, seed := some seed, masterKey := some masterKey } }
  secretFile := some json

theorem nextDerivable_storedIn {seed : MnemonicSeed} {json : Bytes} {count : Nat} :
    NextDerivable lib.toKeyLib (storedIn s encrypted seed masterKey json).wallet count ↔
      ∀ i < count, ∃ key, indexKey lib.toKeyLib s.wallet.config s.wallet.keystore.network masterKey
        (s.wallet.nextIndex + UInt32.ofNat i) = .ok key := nextDerivable_iff rfl

theorem exec_init_of_stored {seed : MnemonicSeed} {json : Bytes} (fresh : s.wallet.keystore.isInitialized = false)
    (created : env.createDirAll = .ok ())
    (stored : (KeyFile.initializeFromMnemonic lib env mnemonic mnemonicPassword encryptionPassword).exec
      ⟨s.wallet.keystore, s.secretFile⟩ = (.ok (), ⟨{ s.wallet.keystore with
        encrypted := some encrypted, seed := some seed, masterKey := some masterKey }, some json⟩)) :
    (WalletOnDisk.init lib env mnemonic mnemonicPassword encryptionPassword).exec s = (do
      WalletOnDisk.onWallet (Wallet.generateAddresses lib.toKeyLib s.wallet.config.preGenerate)
      return mnemonic : Op WalletOnDisk WalletError String).exec (storedIn s encrypted seed masterKey json) := by
  have onFile : (WalletOnDisk.onKeyFile
      (KeyFile.initializeFromMnemonic lib env mnemonic mnemonicPassword encryptionPassword)).exec s =
        (.ok (), storedIn s encrypted seed masterKey json) := by
    rw [WalletOnDisk.onKeyFile, Op.exec_zoom, stored]
    rfl
  rw [exec_init_of_fresh fresh created, Op.exec_bind_of_ok onFile, Op.exec_bind_of_ok (Op.exec_get _)]
  rfl

theorem exec_onWallet_of_derivable {count : Nat} (derivable : NextDerivable lib.toKeyLib s.wallet count) :
    ∃ after, (WalletOnDisk.onWallet (Wallet.generateAddresses lib.toKeyLib count)).exec s = (.ok (), after) ∧
      after.secretFile = s.secretFile := by
  obtain ⟨wallet, generated⟩ := generateAddresses_ok_iff.mpr derivable
  refine ⟨{ s with wallet }, ?_, rfl⟩
  rw [WalletOnDisk.onWallet, Op.exec_zoom, generated]

theorem exec_onWallet_of_not_derivable {count : Nat} (short : ¬ NextDerivable lib.toKeyLib s.wallet count) :
    ∃ e after, (WalletOnDisk.onWallet (Wallet.generateAddresses lib.toKeyLib count)).exec s = (.error e, after) ∧
      after.wallet.keystore.encrypted = s.wallet.keystore.encrypted := by
  have keeps := @keeps_generateAddresses lib.toKeyLib count s.wallet
  rcases generated : (Wallet.generateAddresses lib.toKeyLib count).exec s.wallet with ⟨result, wallet⟩
  rw [generated] at keeps
  cases result with
  | ok _ => exact absurd (generateAddresses_ok_iff.mp ⟨wallet, generated⟩) short
  | error e =>
      refine ⟨e, { s with wallet }, ?_, keeps⟩
      rw [WalletOnDisk.onWallet, Op.exec_zoom, generated]

theorem exec_init_of_completes {json : Bytes} (fresh : s.wallet.keystore.isInitialized = false)
    (created : env.createDirAll = .ok ())
    (prepared : Prepared lib env mnemonic mnemonicPassword encryptionPassword encrypted masterKey)
    (completes : Completes lib env s encrypted masterKey json) :
    ∃ after, (WalletOnDisk.init lib env mnemonic mnemonicPassword encryptionPassword).exec s = (.ok mnemonic, after) ∧
      after.secretFile = some json := by
  rcases @initialize_prepared _ _ _ _ _ _ _ ⟨s.wallet.keystore, s.secretFile⟩ prepared with
    ⟨other, text, -, stored⟩ | ⟨unwritten, -⟩
  · cases completes.text.symm.trans text
    rw [exec_init_of_stored fresh created stored]
    obtain ⟨after, generated, file⟩ := exec_onWallet_of_derivable (nextDerivable_storedIn.mpr completes.derivable)
    exact ⟨after, Op.exec_bind_of_ok generated, file⟩
  · exact absurd ⟨completes.written, json, completes.text⟩ unwritten

/-- Whatever fails once the seed is encrypted, the wallet counts as initialized from then on. -/
theorem exec_init_of_not_completes (fresh : s.wallet.keystore.isInitialized = false) (created : env.createDirAll = .ok ())
    (prepared : Prepared lib env mnemonic mnemonicPassword encryptionPassword encrypted masterKey)
    (short : ∀ json, ¬ Completes lib env s encrypted masterKey json) :
    ∃ e after, (WalletOnDisk.init lib env mnemonic mnemonicPassword encryptionPassword).exec s = (.error e, after) ∧
      after.wallet.keystore.isInitialized = true := by
  rcases @initialize_prepared _ _ _ _ _ _ _ ⟨s.wallet.keystore, s.secretFile⟩ prepared with
    ⟨json, text, written, stored⟩ | ⟨-, e, file, failed⟩
  · rw [exec_init_of_stored fresh created stored]
    obtain ⟨e, after, failed, kept⟩ := exec_onWallet_of_not_derivable fun derivable =>
      short json ⟨written, text, nextDerivable_storedIn.mp derivable⟩
    refine ⟨e, after, Op.exec_bind_of_error failed, ?_⟩
    rw [KeyStore.isInitialized, kept]
    rfl
  · have onFile : (WalletOnDisk.onKeyFile
        (KeyFile.initializeFromMnemonic lib env mnemonic mnemonicPassword encryptionPassword)).exec s =
          (.error e, ⟨{ s.wallet with keystore := { s.wallet.keystore with encrypted := some encrypted } }, file⟩) := by
      rw [WalletOnDisk.onKeyFile, Op.exec_zoom, failed]
    rw [exec_init_of_fresh fresh created]
    exact ⟨e, _, Op.exec_bind_of_error onFile, rfl⟩

theorem exec_init_of_initialized (initialized : s.wallet.keystore.isInitialized = true) :
    (WalletOnDisk.init lib env mnemonic mnemonicPassword encryptionPassword).exec s =
      (.error (.txBuildError "Wallet already initialized"), s) := by
  unfold WalletOnDisk.init
  rw [Op.exec_bind_of_ok (Op.exec_get s), Op.exec_ite, if_pos initialized, Op.exec_throw]

theorem exec_init_of_not_created {e : String} (fresh : s.wallet.keystore.isInitialized = false)
    (failed : env.createDirAll = .error e) :
    (WalletOnDisk.init lib env mnemonic mnemonicPassword encryptionPassword).exec s = (.error (.io e), s) := by
  unfold WalletOnDisk.init
  rw [Op.exec_bind_of_ok (Op.exec_get s), Op.exec_ite, if_neg (by simp [fresh]), failed, Except.mapError]
  exact Op.exec_bind_of_error (Op.exec_ofExcept _ _)

theorem exec_init_of_unprepared (fresh : s.wallet.keystore.isInitialized = false) (created : env.createDirAll = .ok ())
    (unprepared : ∀ encrypted masterKey,
      ¬ Prepared lib env mnemonic mnemonicPassword encryptionPassword encrypted masterKey) :
    ∃ e, (WalletOnDisk.init lib env mnemonic mnemonicPassword encryptionPassword).exec s = (.error e, s) := by
  obtain ⟨e, failed⟩ := @initialize_unprepared _ _ _ _ _ ⟨s.wallet.keystore, s.secretFile⟩ unprepared
  have onFile : (WalletOnDisk.onKeyFile
      (KeyFile.initializeFromMnemonic lib env mnemonic mnemonicPassword encryptionPassword)).exec s = (.error e, s) := by
    rw [WalletOnDisk.onKeyFile, Op.exec_zoom, failed]
  rw [exec_init_of_fresh fresh created]
  exact ⟨e, Op.exec_bind_of_error onFile⟩

/-- An initialization that gets as far as to encrypt the seed completes, and finds no other file. -/
def Clear (lib : WalletLib) (s : WalletOnDisk) (env : InitEnv) (mnemonic mnemonicPassword encryptionPassword : String) :
    Prop :=
  s.wallet.keystore.isInitialized = false → env.createDirAll = .ok () →
    ∀ encrypted masterKey, Prepared lib env mnemonic mnemonicPassword encryptionPassword encrypted masterKey →
      ∃ json, Completes lib env s encrypted masterKey json ∧ ∀ content, s.secretFile = some content → content = json

def CallIsSafe {A : Type} (s : WalletOnDisk) (op : Op WalletOnDisk WalletError A) : Prop :=
  Safe s (op.exec s).1 (op.exec s).2

theorem init_safe_iff :
    CallIsSafe s (WalletOnDisk.init lib env mnemonic mnemonicPassword encryptionPassword) ↔
      Clear lib s env mnemonic mnemonicPassword encryptionPassword := by
  unfold CallIsSafe
  constructor
  · intro safe fresh created encrypted masterKey prepared
    by_cases completes : ∃ json, Completes lib env s encrypted masterKey json
    · obtain ⟨json, completes⟩ := completes
      obtain ⟨after, done, file⟩ := exec_init_of_completes fresh created prepared completes
      rw [done] at safe
      refine ⟨json, completes, fun content there => ?_⟩
      have kept := safe.kept content there
      rw [file] at kept
      exact (Option.some.inj kept).symm
    · obtain ⟨e, after, failed, initialized⟩ :=
        exec_init_of_not_completes fresh created prepared (not_exists.mp completes)
      rw [failed] at safe
      have same := (safe.undone e rfl).1
      rw [fresh, initialized] at same
      cases same
  · intro clear
    cases fresh : s.wallet.keystore.isInitialized with
    | true =>
        rw [exec_init_of_initialized fresh]
        exact safe_unchanged
    | false =>
        cases created : env.createDirAll with
        | error e =>
            rw [exec_init_of_not_created fresh created]
            exact safe_unchanged
        | ok _ =>
            by_cases prepared : ∃ encrypted masterKey,
                Prepared lib env mnemonic mnemonicPassword encryptionPassword encrypted masterKey
            · obtain ⟨encrypted, masterKey, prepared⟩ := prepared
              obtain ⟨json, completes, same⟩ := clear fresh created encrypted masterKey prepared
              obtain ⟨after, done, file⟩ := exec_init_of_completes fresh created prepared completes
              rw [done]
              exact ⟨fun content there => by rw [file, same content there], nofun⟩
            · obtain ⟨e, failed⟩ := exec_init_of_unprepared fresh created fun encrypted masterKey ready =>
                prepared ⟨encrypted, masterKey, ready⟩
              rw [failed]
              exact safe_unchanged

theorem initNew_safe_iff {draws : Fin 12 → Nat} :
    CallIsSafe s (WalletOnDisk.initNew lib env draws encryptionPassword) ↔
      Clear lib s env (generateRandomMnemonic draws) "" encryptionPassword := by
  rw [← init_safe_iff]
  unfold CallIsSafe WalletOnDisk.initNew
  dsimp only
  rw [Op.exec_bind]
  rcases (WalletOnDisk.init lib env (generateRandomMnemonic draws) "" encryptionPassword).exec s with ⟨result, after⟩
  cases result with
  | ok _ => exact ⟨fun safe => ⟨safe.kept, nofun⟩, fun safe => ⟨safe.kept, nofun⟩⟩
  | error e => rfl

end Init

/-! ### Runs with the file -/

inductive DiskAction where
  | init (env : InitEnv) (mnemonic mnemonicPassword encryptionPassword : String)
  | initNew (env : InitEnv) (draws : Fin 12 → Nat) (encryptionPassword : String)
  | load (env : LoadEnv)
  | unlock (password : String)
  | lock
  | newAddress
  | deriveAddress (path : String)
  | track (tracker : BoxTracker)
  | restart (config : WalletConfig)
  | fileSystem (secretFile : Option Bytes)

def diskStep (lib : WalletLib) (s : WalletOnDisk) : DiskAction → Option WalletOnDisk
  | .init env mnemonic mnemonicPassword encryptionPassword =>
      some ((WalletOnDisk.init lib env mnemonic mnemonicPassword encryptionPassword).exec s).2
  | .initNew env draws encryptionPassword => some ((WalletOnDisk.initNew lib env draws encryptionPassword).exec s).2
  | .load env => some ((WalletOnDisk.load lib env).exec s).2
  | .unlock password => some ((WalletOnDisk.onWallet (Wallet.unlock lib.toKeyLib password)).exec s).2
  | .lock => some { s with wallet := s.wallet.lock }
  | .newAddress => some ((WalletOnDisk.onWallet (Wallet.newAddress lib.toKeyLib)).exec s).2
  | .deriveAddress path => some ((WalletOnDisk.onWallet (Wallet.deriveAddress lib.toKeyLib path)).exec s).2
  | .track tracker => some { s with wallet := { s.wallet with tracker } }
  | .restart config => some (.start config s.secretFile)
  | .fileSystem secretFile => some { s with secretFile }

def InitIsSafe (lib : WalletLib) (s : WalletOnDisk) : DiskAction → Prop
  | .init env mnemonic mnemonicPassword encryptionPassword =>
      CallIsSafe s (WalletOnDisk.init lib env mnemonic mnemonicPassword encryptionPassword)
  | .initNew env draws encryptionPassword => CallIsSafe s (WalletOnDisk.initNew lib env draws encryptionPassword)
  | _ => True

def InitIsClear (lib : WalletLib) (s : WalletOnDisk) : DiskAction → Prop
  | .init env mnemonic mnemonicPassword encryptionPassword =>
      Clear lib s env mnemonic mnemonicPassword encryptionPassword
  | .initNew env draws encryptionPassword => Clear lib s env (generateRandomMnemonic draws) "" encryptionPassword
  | _ => True

section Run
variable {lib : WalletLib} {s t : WalletOnDisk} {action : DiskAction} {content : Bytes}

theorem initIsSafe_iff : InitIsSafe lib s action ↔ InitIsClear lib s action := by
  cases action with
  | init env mnemonic mnemonicPassword encryptionPassword => exact init_safe_iff
  | initNew env draws encryptionPassword => exact initNew_safe_iff
  | _ => exact Iff.rfl

theorem secretFile_step (clear : InitIsClear lib s action) (own : ∀ secretFile, action ≠ .fileSystem secretFile)
    (there : s.secretFile = some content) (taken : diskStep lib s action = some t) : t.secretFile = some content := by
  cases action with
  | init env mnemonic mnemonicPassword encryptionPassword =>
      cases taken
      exact (init_safe_iff.mpr clear).kept content there
  | initNew env draws encryptionPassword =>
      cases taken
      exact (initNew_safe_iff.mpr clear).kept content there
  | load env =>
      cases taken
      have keeps : Op.Keeps KeyFile.file (KeyFile.load lib env) := by
        refine Op.keeps_get.bind fun keys => ?_
        split
        · exact Op.keeps_throw _
        · refine Op.Keeps.ite ?_ (Op.keeps_throw _)
          refine (Op.keeps_ofExcept _).bind fun _ => (Op.keeps_ofExcept _).bind fun _ => Op.keeps_modify fun _ => rfl
      rw [WalletOnDisk.load, WalletOnDisk.onKeyFile, Op.exec_zoom]
      exact (keeps _).trans there
  | fileSystem secretFile => exact absurd rfl (own secretFile)
  | _ =>
      cases taken
      exact there

theorem secretFile_along {actions : List DiskAction}
    (along : Along (diskStep lib) (fun s a => InitIsClear lib s a ∧ ∀ secretFile, a ≠ .fileSystem secretFile) s actions)
    (there : s.secretFile = some content) :
    Always (diskStep lib) (fun s => s.secretFile = some content) s actions :=
  along.invariant _ (fun there clear taken => secretFile_step clear.1 clear.2 there taken) there

end Run

/-- Every initialization of a run is safe exactly if each one that gets as far as to encrypt the seed completes,
and finds no other file. -/
theorem initIsSafe_along_iff (lib : WalletLib) (config : WalletConfig) (secretFile : Option Bytes)
    (actions : List DiskAction) :
    Along (diskStep lib) (InitIsSafe lib) (.start config secretFile) actions ↔
      Along (diskStep lib) (InitIsClear lib) (.start config secretFile) actions :=
  Along.congr fun _ _ => initIsSafe_iff

/-! ### A second seed over the first -/

def sampleWalletLib : WalletLib := { sampleKeys with
  toSeed := fun _ _ => ⟨List.replicate 64 7, List.length_replicate⟩
  encrypt := fun _ _ plaintext => .ok plaintext
  toJson := fun key => .ok (key.nonce ++ key.encryptedSeed)
  fromJson := fun json => .ok { sampleEncrypted with nonce := json.take 12, encryptedSeed := json.drop 12 } }

def sampleInit (byte : UInt8) : DiskAction :=
  .init ⟨.ok (), "salt", List.replicate 12 byte, .written⟩
    "army army army army army army army army army army army army" "" "open"

def initializedTwice : List DiskAction := [sampleInit 0, .restart sampleConfig, sampleInit 1]

theorem initializedTwice_not_safe :
    ¬ Along (diskStep sampleWalletLib) (InitIsSafe sampleWalletLib) (.start sampleConfig none) initializedTwice := by
  intro along
  obtain ⟨s, ran⟩ : ∃ s, run (diskStep sampleWalletLib) (.start sampleConfig none)
      [sampleInit 0, .restart sampleConfig] = some s := ⟨_, rfl⟩
  have safe : CallIsSafe s (WalletOnDisk.init sampleWalletLib ⟨.ok (), "salt", List.replicate 12 1, .written⟩
      "army army army army army army army army army army army army" "" "open") :=
    along [sampleInit 0, .restart sampleConfig] (sampleInit 1) List.prefix_rfl s ran
  cases ran
  have kept := safe.kept (List.replicate 12 0 ++ List.replicate 64 7) (by decide +kernel)
  exact absurd kept (by decide +kernel)

end ErgoNode.Proof.Wallet
