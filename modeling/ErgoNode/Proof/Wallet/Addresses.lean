import ErgoNode.Lib.Except
import ErgoNode.Lib.Run
import ErgoNode.Wallet.Wallet
import Mathlib.Algebra.GroupWithZero.Nat

/-!
# The addresses a wallet hands out

Locking forgets the keys and the next index, and unlocking makes the first addresses only.
-/

namespace ErgoNode.Proof.Wallet
open Lib

section Operations
variable {lib : KeyLib} {wallet after : ErgoNode.Wallet} {keys : List DerivedKey}

def indexKey (lib : KeyLib) (config : WalletConfig) (network : NetworkPrefix) (master : ExtSecretKey) (index : UInt32) :
    WalletResult DerivedKey :=
  KeyStore.deriveFrom lib network master (KeyStore.indexPath config.defaultAccount index)

theorem deriveKeyForIndex_of_master {store : KeyStore} {master : ExtSecretKey} (kept : store.masterKey = some master)
    (account index : UInt32) : store.deriveKeyForIndex lib account index =
      KeyStore.deriveFrom lib store.network master (KeyStore.indexPath account index) := by
  rw [KeyStore.deriveKeyForIndex, KeyStore.deriveKey, kept]

/-! Keys are only added. -/

theorem foldl_keepKey_keystore (keys : List DerivedKey) (wallet : ErgoNode.Wallet) :
    (keys.foldl Wallet.keepKey wallet).keystore =
      { wallet.keystore with derivedKeys := wallet.keystore.derivedKeys ++ keys } := by
  induction keys generalizing wallet with
  | nil => simp
  | cons key rest ih =>
      rw [List.foldl_cons, ih]
      simp [Wallet.keepKey, KeyStore.cacheDerivedKey]

@[simp] theorem foldl_keepKey_config (keys : List DerivedKey) (wallet : ErgoNode.Wallet) :
    (keys.foldl Wallet.keepKey wallet).config = wallet.config := by
  induction keys generalizing wallet with
  | nil => rfl
  | cons key rest ih => exact ih (wallet.keepKey key)

theorem forEach_keepKey {start : UInt32} {numbers : List Nat}
    (done : (Op.forEach (fun i => do
      let wallet ← get
      let key ← MonadExcept.ofExcept
        (wallet.keystore.deriveKeyForIndex lib wallet.config.defaultAccount (start + UInt32.ofNat i))
      modify fun wallet => wallet.keepKey key) numbers : Op ErgoNode.Wallet WalletError Unit).exec wallet =
        (.ok (), after)) :
    ∃ keys, List.Forall₂ (fun i key =>
        wallet.keystore.deriveKeyForIndex lib wallet.config.defaultAccount (start + UInt32.ofNat i) = .ok key)
      numbers keys ∧ after = keys.foldl Wallet.keepKey wallet := by
  induction numbers generalizing wallet with
  | nil =>
      cases done
      exact ⟨[], .nil, rfl⟩
  | cons i rest ih =>
      rw [Op.forEach, Op.exec_bind_eq_ok] at done
      obtain ⟨⟨⟩, middle, first, later⟩ := done
      rw [Op.exec_bind_of_ok (Op.exec_get wallet), Op.exec_ofExcept_bind_eq_ok] at first
      obtain ⟨key, derived, kept⟩ := first
      cases kept
      obtain ⟨keys, pairs, rfl⟩ := ih later
      exact ⟨key :: keys, .cons derived pairs, rfl⟩

theorem generateAddresses_eq_ok {count : Nat}
    (done : (Wallet.generateAddresses lib count).exec wallet = (.ok (), after)) :
    ∃ keys, List.Forall₂ (fun i key =>
        wallet.keystore.deriveKeyForIndex lib wallet.config.defaultAccount (wallet.nextIndex + UInt32.ofNat i) = .ok key)
      (List.range count) keys ∧
      after = { keys.foldl Wallet.keepKey wallet with nextIndex := wallet.nextIndex + UInt32.ofNat count } := by
  unfold Wallet.generateAddresses at done
  rw [Op.exec_bind_of_ok (Op.exec_get wallet), Op.exec_bind_eq_ok] at done
  obtain ⟨⟨⟩, middle, looped, numbered⟩ := done
  obtain ⟨keys, pairs, rfl⟩ := forEach_keepKey looped
  cases numbered
  exact ⟨keys, pairs, rfl⟩

theorem keystore_unlock_eq_ok {store opened : KeyStore} {password : String}
    (done : (KeyStore.unlock lib password).exec store = (.ok (), opened)) :
    ∃ encrypted seed master, store.encrypted = some encrypted ∧
      KeyStore.decryptSeed lib encrypted password = .ok (seed, master) ∧
      opened = ⟨some encrypted, some seed, some master, store.network, store.derivedKeys⟩ := by
  unfold KeyStore.unlock at done
  rw [Op.exec_bind_of_ok (Op.exec_get store)] at done
  cases initialized : store.encrypted with
  | none =>
      rw [initialized] at done
      cases done
  | some encrypted =>
      rw [initialized] at done
      rw [Op.exec_ofExcept_bind_eq_ok] at done
      obtain ⟨⟨seed, master⟩, decrypted, kept⟩ := done
      cases kept
      exact ⟨encrypted, seed, master, rfl, decrypted, by simp only [initialized]⟩

theorem unlock_eq_ok {password : String} (done : (Wallet.unlock lib password).exec wallet = (.ok (), after)) :
    ∃ encrypted seed master keys, wallet.keystore.encrypted = some encrypted ∧
      KeyStore.decryptSeed lib encrypted password = .ok (seed, master) ∧
      List.Forall₂ (fun i key =>
        indexKey lib wallet.config wallet.keystore.network master (wallet.nextIndex + UInt32.ofNat i) = .ok key)
        (List.range wallet.config.preGenerate) keys ∧
      after.config = wallet.config ∧
      after.keystore = ⟨some encrypted, some seed, some master, wallet.keystore.network,
        wallet.keystore.derivedKeys ++ keys⟩ ∧
      after.nextIndex = wallet.nextIndex + UInt32.ofNat wallet.config.preGenerate := by
  unfold Wallet.unlock at done
  rw [Op.exec_bind_eq_ok] at done
  obtain ⟨⟨⟩, opened, unlocked, generated⟩ := done
  rw [Op.exec_zoom] at unlocked
  rcases ended : (KeyStore.unlock lib password).exec wallet.keystore with ⟨result, store⟩
  rw [ended] at unlocked
  cases unlocked
  obtain ⟨encrypted, seed, master, initialized, decrypted, rfl⟩ := keystore_unlock_eq_ok ended
  rw [Op.exec_bind_of_ok (Op.exec_get _)] at generated
  obtain ⟨keys, pairs, rfl⟩ := generateAddresses_eq_ok generated
  refine ⟨encrypted, seed, master, keys, initialized, decrypted, ?_, ?_, ?_, rfl⟩
  · exact pairs.imp fun i key derived => by
      rw [deriveKeyForIndex_of_master rfl] at derived
      exact derived
  · exact foldl_keepKey_config keys _
  · change (keys.foldl Wallet.keepKey _).keystore = _
    rw [foldl_keepKey_keystore]

theorem whenUnlocked_eq_ok {A : Type} {body : Op ErgoNode.Wallet WalletError A} {a : A}
    (done : (Wallet.whenUnlocked body).exec wallet = (.ok a, after)) :
    wallet.keystore.isUnlocked = true ∧ body.exec wallet = (.ok a, after) := by
  unfold Wallet.whenUnlocked at done
  rw [Op.exec_bind_of_ok (Op.exec_get wallet), Op.exec_ite] at done
  split at done
  · next unlocked => exact ⟨unlocked, done⟩
  · cases done

theorem keptKey_eq_ok {derive : ErgoNode.Wallet → WalletResult DerivedKey}
    {keep : ErgoNode.Wallet → DerivedKey → ErgoNode.Wallet → ErgoNode.Wallet} {address : String}
    (done : (Wallet.whenUnlocked (do
      let wallet ← get
      let key ← MonadExcept.ofExcept (derive wallet)
      modify (keep wallet key)
      return key.addressStr)).exec wallet = (.ok address, after)) :
    wallet.keystore.isUnlocked = true ∧ ∃ key, derive wallet = .ok key ∧
      address = key.addressStr ∧ after = keep wallet key wallet := by
  obtain ⟨unlocked, done⟩ := whenUnlocked_eq_ok done
  refine ⟨unlocked, ?_⟩
  rw [Op.exec_bind_of_ok (Op.exec_get wallet), Op.exec_ofExcept_bind_eq_ok] at done
  obtain ⟨key, derived, kept⟩ := done
  cases kept
  exact ⟨key, derived, rfl, rfl⟩

theorem newAddress_eq_ok {address : String} (done : (Wallet.newAddress lib).exec wallet = (.ok address, after)) :
    wallet.keystore.isUnlocked = true ∧ ∃ key,
      wallet.keystore.deriveKeyForIndex lib wallet.config.defaultAccount wallet.nextIndex = .ok key ∧
        address = key.addressStr ∧ after = { wallet.keepKey key with nextIndex := wallet.nextIndex + 1 } :=
  keptKey_eq_ok done

theorem deriveAddress_eq_ok {path address : String}
    (done : (Wallet.deriveAddress lib path).exec wallet = (.ok address, after)) :
    wallet.keystore.isUnlocked = true ∧ ∃ key, wallet.keystore.deriveKey lib path = .ok key ∧
      address = key.addressStr ∧ after = wallet.keepKey key :=
  keptKey_eq_ok done

theorem findSecretKeyByStr_isSome {store : KeyStore} {address : String} :
    (store.findSecretKeyByStr address).isSome = true ↔ ∃ key ∈ store.derivedKeys, key.addressStr = address := by
  simp [KeyStore.findSecretKeyByStr]

theorem getSecretKey_isOk {address : String} : (∃ secret, wallet.getSecretKey address = .ok secret) ↔
    wallet.keystore.isUnlocked = true ∧ ∃ key ∈ wallet.keystore.derivedKeys, key.addressStr = address := by
  rw [← findSecretKeyByStr_isSome]
  unfold Wallet.getSecretKey
  cases wallet.keystore.isUnlocked with
  | false => simp
  | true => cases wallet.keystore.findSecretKeyByStr address <;> simp

end Operations

/-! ### Runs of a wallet -/

/-- A wallet, the addresses `newAddress` has returned, and all addresses it has handed out. -/
structure WalletRun where
  wallet : ErgoNode.Wallet
  created : List String
  handedOut : List String

namespace WalletRun
variable (lib : KeyLib)

inductive Action where
  | unlock (password : String)
  | lock
  | newAddress
  | deriveAddress (path : String)

def succeeded {A : Type} (op : Op ErgoNode.Wallet WalletError A) (wallet : ErgoNode.Wallet) :
    Option (A × ErgoNode.Wallet) :=
  match op.exec wallet with
  | (.ok a, after) => some (a, after)
  | (.error _, _) => none

def step (run : WalletRun) : Action → Option WalletRun
  | .unlock password => (succeeded (Wallet.unlock lib password) run.wallet).map fun done =>
      { run with wallet := done.2 }
  | .lock => some { run with wallet := run.wallet.lock }
  | .newAddress => (succeeded (Wallet.newAddress lib) run.wallet).map fun done =>
      ⟨done.2, run.created ++ [done.1], run.handedOut ++ [done.1]⟩
  | .deriveAddress path => (succeeded (Wallet.deriveAddress lib path) run.wallet).map fun done =>
      ⟨done.2, run.created, run.handedOut ++ [done.1]⟩

def loaded (config : WalletConfig) (encrypted : EncryptedKey) : WalletRun where
  wallet :=
    { Wallet.new config with
      keystore := { KeyStore.withNetwork config.network with encrypted := some encrypted } }
  created := []
  handedOut := []

end WalletRun

/-- No new address is an earlier one, and an unlocked wallet has the keys of all addresses handed out. -/
structure KeepsHandedOut (run : WalletRun) : Prop where
  distinct : run.created.Nodup
  keys : run.wallet.keystore.isUnlocked = true →
    ∀ address ∈ run.handedOut, ∃ secret, run.wallet.getSecretKey address = .ok secret

/-- Every address handed out is one of those made by unlocking, when a locked wallet is unlocked. -/
def AmongFirst (lib : KeyLib) (config : WalletConfig) (master : ExtSecretKey) (run : WalletRun)
    (action : WalletRun.Action) : Prop :=
  ∀ password, action = .unlock password → run.wallet.keystore.isUnlocked = false →
    ∀ address ∈ run.handedOut, ∃ i < config.preGenerate, ∃ key,
      indexKey lib config config.network master (UInt32.ofNat i) = .ok key ∧ key.addressStr = address

/-- What the wallet relies on: the encrypted seed opens to one master key, an index in a path is below 2^31, and
an address tells its index. -/
structure Derivable (lib : KeyLib) (config : WalletConfig) (encrypted : EncryptedKey) (master : ExtSecretKey) :
    Prop where
  opens : ∀ password seed other, KeyStore.decryptSeed lib encrypted password = .ok (seed, other) → other = master
  normal : ∀ index : UInt32, 2 ^ 31 ≤ index.toNat →
    ∀ path, lib.parsePath (KeyStore.indexPath config.defaultAccount index) ≠ .ok path
  injective : ∀ i j key other, indexKey lib config config.network master i = .ok key →
    indexKey lib config config.network master j = .ok other → key.addressStr = other.addressStr → i = j

section Run
variable {lib : KeyLib} {config : WalletConfig} {encrypted : EncryptedKey} {master : ExtSecretKey}
variable {run next : WalletRun} {action : WalletRun.Action} {key : DerivedKey} {index start : UInt32}

theorem succeeded_eq_some {A : Type} {op : Op ErgoNode.Wallet WalletError A} {wallet after : ErgoNode.Wallet} {a : A} :
    WalletRun.succeeded op wallet = some (a, after) ↔ op.exec wallet = (.ok a, after) := by
  unfold WalletRun.succeeded
  rcases op.exec wallet with ⟨result, ended⟩
  cases result with
  | ok b => simp
  | error e => simp

theorem Derivable.index_lt (derivable : Derivable lib config encrypted master)
    (derived : indexKey lib config config.network master index = .ok key) : index.toNat < 2 ^ 31 := by
  by_contra high
  unfold indexKey KeyStore.deriveFrom at derived
  rw [Except.bind_ok_eq_ok] at derived
  obtain ⟨path, parsed, -⟩ := derived
  exact derivable.normal _ (Nat.le_of_not_lt high) path ((Except.mapError_ok_iff _ _ _).mp parsed)

theorem Derivable.start_add_le (derivable : Derivable lib config encrypted master) {count : Nat}
    {keys : List DerivedKey} (low : start.toNat ≤ 2 ^ 31)
    (pairs : List.Forall₂ (fun i key =>
      indexKey lib config config.network master (start + UInt32.ofNat i) = .ok key) (List.range count) keys) :
    start.toNat + count ≤ 2 ^ 31 := by
  by_contra high
  have bound := start.toNat_lt
  obtain ⟨key, -, derived⟩ := exists_right pairs (List.mem_range.mpr (show 2 ^ 31 - start.toNat < count by omega))
  have index := derivable.index_lt derived
  rw [UInt32.toNat_add, UInt32.toNat_ofNat'] at index
  omega

theorem toNat_add_ofNat {count : Nat} (fits : start.toNat + count ≤ 2 ^ 31) :
    (start + UInt32.ofNat count).toNat = start.toNat + count := by
  rw [UInt32.toNat_add, UInt32.toNat_ofNat']
  omega

/-- `created` is made of addresses with indices after the first ones, below the next index while the wallet is
unlocked. -/
structure Numbered (lib : KeyLib) (config : WalletConfig) (encrypted : EncryptedKey) (master : ExtSecretKey)
    (run : WalletRun) : Prop where
  configured : run.wallet.config = config
  initialized : run.wallet.keystore.encrypted = some encrypted
  addressed : run.wallet.keystore.network = config.network
  unlocked : run.wallet.keystore.isUnlocked = true → run.wallet.keystore.masterKey = some master
  locked : run.wallet.keystore.isUnlocked = false → run.wallet.keystore.derivedKeys = [] ∧ run.wallet.nextIndex = 0
  next : run.wallet.keystore.isUnlocked = true →
    config.preGenerate ≤ run.wallet.nextIndex.toNat ∧ run.wallet.nextIndex.toNat ≤ 2 ^ 31
  distinct : run.created.Nodup
  listed : run.created ⊆ run.handedOut
  indices : ∀ address ∈ run.created, ∃ index key, indexKey lib config config.network master index = .ok key ∧
    key.addressStr = address ∧ config.preGenerate ≤ index.toNat ∧
      (run.wallet.keystore.isUnlocked = true → index.toNat < run.wallet.nextIndex.toNat)
  keys : run.wallet.keystore.isUnlocked = true →
    ∀ address ∈ run.handedOut, ∃ key ∈ run.wallet.keystore.derivedKeys, key.addressStr = address

theorem numbered_loaded : Numbered lib config encrypted master (.loaded config encrypted) where
  configured := rfl
  initialized := rfl
  addressed := rfl
  unlocked := nofun
  locked _ := ⟨rfl, rfl⟩
  next := nofun
  distinct := List.nodup_nil
  listed := List.nil_subset _
  indices := List.forall_mem_nil _
  keys := nofun

theorem Numbered.keepsHandedOut (numbered : Numbered lib config encrypted master run) : KeepsHandedOut run where
  distinct := numbered.distinct
  keys unlocked address member := getSecretKey_isOk.mpr ⟨unlocked, numbered.keys unlocked address member⟩

/-! What each operation does to the numbering. -/

theorem Numbered.deriveKeyForIndex (numbered : Numbered lib config encrypted master run)
    (unlocked : run.wallet.keystore.isUnlocked = true) (index : UInt32) :
    run.wallet.keystore.deriveKeyForIndex lib run.wallet.config.defaultAccount index =
      indexKey lib config config.network master index := by
  rw [deriveKeyForIndex_of_master (numbered.unlocked unlocked), numbered.addressed, numbered.configured]
  rfl

theorem Numbered.keys_keepKey (numbered : Numbered lib config encrypted master run)
    (unlocked : run.wallet.keystore.isUnlocked = true) (key : DerivedKey) :
    ∀ address ∈ run.handedOut ++ [key.addressStr],
      ∃ other ∈ run.wallet.keystore.derivedKeys ++ [key], other.addressStr = address := by
  intro address member
  rcases List.mem_append.mp member with old | new
  · obtain ⟨other, cached, same⟩ := numbered.keys unlocked address old
    exact ⟨other, List.mem_append_left _ cached, same⟩
  · exact ⟨key, List.mem_append_right _ (List.mem_singleton_self _), (List.mem_singleton.mp new).symm⟩

theorem Numbered.newAddress (derivable : Derivable lib config encrypted master)
    (numbered : Numbered lib config encrypted master run) (taken : run.step lib .newAddress = some next) :
    Numbered lib config encrypted master next := by
  obtain ⟨⟨address, after⟩, done, rfl⟩ := Option.map_eq_some_iff.mp taken
  obtain ⟨unlocked, key, derived, rfl, rfl⟩ := newAddress_eq_ok (succeeded_eq_some.mp done)
  rw [numbered.deriveKeyForIndex unlocked] at derived
  have low := derivable.index_lt derived
  have bump : (run.wallet.nextIndex + 1).toNat = run.wallet.nextIndex.toNat + 1 := by
    rw [UInt32.toNat_add, Nat.mod_eq_of_lt]
    · rfl
    · change _ + 1 < _
      omega
  obtain ⟨first, -⟩ := numbered.next unlocked
  have fresh : key.addressStr ∉ run.created := by
    intro member
    obtain ⟨index, other, derivedOther, same, -, before⟩ := numbered.indices _ member
    have equal := derivable.injective _ _ _ _ derivedOther derived same
    subst equal
    exact Nat.lt_irrefl _ (before unlocked)
  refine ⟨numbered.configured, numbered.initialized, numbered.addressed, numbered.unlocked, ?_, ?_, ?_, ?_, ?_, ?_⟩
  · intro locked
    exact absurd (unlocked.symm.trans locked) (by simp)
  · intro _
    rw [bump]
    omega
  · exact List.nodup_append.mpr ⟨numbered.distinct, List.nodup_singleton _, by
      rintro a here _ (_ | ⟨_, ⟨⟩⟩) rfl
      exact fresh here⟩
  · exact List.append_subset.mpr ⟨List.subset_append_of_subset_left _ numbered.listed, List.subset_append_right _ _⟩
  · intro address member
    rcases List.mem_append.mp member with old | new
    · obtain ⟨index, other, derivedOther, same, after, before⟩ := numbered.indices address old
      refine ⟨index, other, derivedOther, same, after, fun _ => ?_⟩
      rw [bump]
      exact Nat.lt_succ_of_lt (before unlocked)
    · cases List.mem_singleton.mp new
      refine ⟨run.wallet.nextIndex, key, derived, rfl, first, fun _ => ?_⟩
      rw [bump]
      exact Nat.lt_succ_self _
  · exact fun _ => numbered.keys_keepKey unlocked key

theorem Numbered.deriveAddress {path : String} (numbered : Numbered lib config encrypted master run)
    (taken : run.step lib (.deriveAddress path) = some next) : Numbered lib config encrypted master next := by
  obtain ⟨⟨address, after⟩, done, rfl⟩ := Option.map_eq_some_iff.mp taken
  obtain ⟨unlocked, key, derived, rfl, rfl⟩ := deriveAddress_eq_ok (succeeded_eq_some.mp done)
  refine ⟨numbered.configured, numbered.initialized, numbered.addressed, numbered.unlocked, ?_, numbered.next,
    numbered.distinct, List.subset_append_of_subset_left _ numbered.listed, numbered.indices, ?_⟩
  · intro locked
    exact absurd (unlocked.symm.trans locked) (by simp)
  · exact fun _ => numbered.keys_keepKey unlocked key

theorem Numbered.lock (numbered : Numbered lib config encrypted master run) :
    Numbered lib config encrypted master { run with wallet := run.wallet.lock } where
  configured := numbered.configured
  initialized := numbered.initialized
  addressed := numbered.addressed
  unlocked := nofun
  locked _ := ⟨rfl, rfl⟩
  next := nofun
  distinct := numbered.distinct
  listed := numbered.listed
  indices address member := by
    obtain ⟨index, key, derived, same, after, -⟩ := numbered.indices address member
    exact ⟨index, key, derived, same, after, nofun⟩
  keys := nofun

theorem Numbered.unlocks (derivable : Derivable lib config encrypted master)
    (numbered : Numbered lib config encrypted master run) {password : String} {after : ErgoNode.Wallet}
    (done : (Wallet.unlock lib password).exec run.wallet = (.ok (), after)) :
    ∃ seed keys, List.Forall₂ (fun i key =>
        indexKey lib config config.network master (run.wallet.nextIndex + UInt32.ofNat i) = .ok key)
        (List.range config.preGenerate) keys ∧
      after.config = config ∧
      after.keystore = ⟨some encrypted, some seed, some master, config.network, run.wallet.keystore.derivedKeys ++ keys⟩ ∧
      after.nextIndex.toNat = run.wallet.nextIndex.toNat + config.preGenerate ∧
      run.wallet.nextIndex.toNat + config.preGenerate ≤ 2 ^ 31 := by
  obtain ⟨sealed, seed, other, keys, initialized, decrypted, pairs, configured, stored, numberedNext⟩ := unlock_eq_ok done
  cases numbered.initialized.symm.trans initialized
  cases derivable.opens password seed other decrypted
  rw [numbered.addressed, numbered.configured] at pairs
  have low : run.wallet.nextIndex.toNat ≤ 2 ^ 31 := by
    cases phase : run.wallet.keystore.isUnlocked with
    | true => exact (numbered.next phase).2
    | false =>
        rw [(numbered.locked phase).2]
        exact Nat.zero_le _
  have fits := derivable.start_add_le low pairs
  refine ⟨seed, keys, pairs, configured.trans numbered.configured, ?_, ?_, fits⟩
  · rw [stored, numbered.addressed]
  · rw [numberedNext, numbered.configured, toNat_add_ofNat fits]

theorem Numbered.created_eq_nil (derivable : Derivable lib config encrypted master)
    (numbered : Numbered lib config encrypted master run) (few : config.preGenerate ≤ 2 ^ 31)
    (first : ∀ address ∈ run.handedOut, ∃ i < config.preGenerate, ∃ key,
      indexKey lib config config.network master (UInt32.ofNat i) = .ok key ∧ key.addressStr = address) :
    run.created = [] := by
  refine List.eq_nil_iff_forall_not_mem.mpr fun address member => ?_
  obtain ⟨index, key, derived, same, after, -⟩ := numbered.indices address member
  obtain ⟨i, inside, other, derivedOther, sameOther⟩ := first address (numbered.listed member)
  have equal := derivable.injective _ _ _ _ derived derivedOther (same.trans sameOther.symm)
  rw [equal, UInt32.toNat_ofNat', Nat.mod_eq_of_lt (by omega)] at after
  omega

theorem Numbered.unlock (derivable : Derivable lib config encrypted master)
    (numbered : Numbered lib config encrypted master run) {password : String}
    (first : AmongFirst lib config master run (.unlock password))
    (taken : run.step lib (.unlock password) = some next) : Numbered lib config encrypted master next := by
  obtain ⟨⟨⟨⟩, after⟩, done, rfl⟩ := Option.map_eq_some_iff.mp taken
  obtain ⟨seed, keys, pairs, configured, stored, numberedNext, fits⟩ :=
    numbered.unlocks derivable (succeeded_eq_some.mp done)
  have known : ∀ address ∈ run.handedOut, ∃ key ∈ run.wallet.keystore.derivedKeys ++ keys, key.addressStr = address := by
    intro address member
    cases phase : run.wallet.keystore.isUnlocked with
    | true =>
        obtain ⟨key, cached, same⟩ := numbered.keys phase address member
        exact ⟨key, List.mem_append_left _ cached, same⟩
    | false =>
        obtain ⟨i, inside, key, derived, same⟩ := first password rfl phase address member
        obtain ⟨other, cached, derivedOther⟩ := exists_right pairs (List.mem_range.mpr inside)
        rw [(numbered.locked phase).2, UInt32.zero_add, derived] at derivedOther
        cases derivedOther
        exact ⟨key, List.mem_append_right _ cached, same⟩
  have below : ∀ address ∈ run.created, ∃ index key, indexKey lib config config.network master index = .ok key ∧
      key.addressStr = address ∧ config.preGenerate ≤ index.toNat ∧ index.toNat < after.nextIndex.toNat := by
    intro address member
    cases phase : run.wallet.keystore.isUnlocked with
    | true =>
        obtain ⟨index, key, derived, same, late, before⟩ := numbered.indices address member
        refine ⟨index, key, derived, same, late, ?_⟩
        rw [numberedNext]
        exact Nat.lt_add_right _ (before phase)
    | false =>
        rw [numbered.created_eq_nil derivable (by omega) (first password rfl phase)] at member
        cases member
  refine ⟨configured, by rw [stored], by rw [stored], fun _ => by rw [stored], ?_, fun _ => ?_, numbered.distinct,
    numbered.listed, ?_, fun _ => ?_⟩
  · intro locked
    rw [stored] at locked
    cases locked
  · rw [numberedNext]
    exact ⟨Nat.le_add_left _ _, fits⟩
  · intro address member
    obtain ⟨index, key, derived, same, late, before⟩ := below address member
    exact ⟨index, key, derived, same, late, fun _ => before⟩
  · intro address member
    rw [stored]
    exact known address member

theorem numbered_step (derivable : Derivable lib config encrypted master)
    (numbered : Numbered lib config encrypted master run) (first : AmongFirst lib config master run action)
    (taken : run.step lib action = some next) : Numbered lib config encrypted master next := by
  cases action with
  | unlock password => exact numbered.unlock derivable first taken
  | lock =>
      cases taken
      exact numbered.lock
  | newAddress => exact numbered.newAddress derivable taken
  | deriveAddress path => exact numbered.deriveAddress taken

/-- A locked wallet that has the keys of all addresses handed out once it is unlocked made these addresses by
unlocking. -/
theorem amongFirst_of_keepsHandedOut (derivable : Derivable lib config encrypted master)
    (numbered : Numbered lib config encrypted master run) (taken : run.step lib action = some next)
    (kept : KeepsHandedOut next) : AmongFirst lib config master run action := by
  rintro password rfl locked address member
  obtain ⟨⟨⟨⟩, after⟩, done, rfl⟩ := Option.map_eq_some_iff.mp taken
  obtain ⟨seed, keys, pairs, -, stored, -, -⟩ := numbered.unlocks derivable (succeeded_eq_some.mp done)
  have unlocked : after.keystore.isUnlocked = true := by
    rw [stored]
    rfl
  obtain ⟨-, key, cached, same⟩ := getSecretKey_isOk.mp (kept.keys unlocked address member)
  rw [stored, (numbered.locked locked).1] at cached
  obtain ⟨i, inside, derived⟩ := exists_left pairs cached
  rw [(numbered.locked locked).2, UInt32.zero_add] at derived
  exact ⟨i, List.mem_range.mp inside, key, derived, same⟩

end Run

/-- A wallet keeps what it hands out throughout a run exactly if, whenever it is unlocked after it was locked,
all addresses it has handed out are among those that unlocking makes. -/
theorem keepsHandedOut_iff (lib : KeyLib) (config : WalletConfig) (encrypted : EncryptedKey) (master : ExtSecretKey)
    (derivable : Derivable lib config encrypted master) (actions : List WalletRun.Action) (last : WalletRun)
    (ran : run (WalletRun.step lib) (.loaded config encrypted) actions = some last) :
    Always (WalletRun.step lib) KeepsHandedOut (.loaded config encrypted) actions ↔
      Along (WalletRun.step lib) (AmongFirst lib config master) (.loaded config encrypted) actions :=
  always_iff_along (numbered_step derivable) (amongFirst_of_keepsHandedOut derivable) Numbered.keepsHandedOut
    numbered_loaded ran

/-! ### A wallet with one key for each index -/

def sampleKeys : KeyLib where
  argon2Params _ _ _ := .ok ()
  argon2id password _ _ _ _ := .ok [if password = "open" then 1 else 0]
  decrypt key _ ciphertext := if key = [1] then some ciphertext else none
  deriveMaster seed := .ok seed.bytes
  parsePath path :=
    let index := Nat.ofDigitChars 10 (path.toList.drop 16) 0
    if index < 2 ^ 31 then .ok [UInt32.ofNat index] else .error "the number is too large"
  derive _ path := .ok (List.replicate (path.map UInt32.toNat).sum 0)
  secretKey key := key
  publicKey key := .ok key
  toBase58 _ address := Nat.repr address.length

def sampleConfig : WalletConfig := ⟨2, 0, .mainnet⟩

def sampleEncrypted : EncryptedKey := ⟨1, List.replicate 64 7, "salt", List.replicate 12 0, 65536, 3, 4⟩

def sampleMaster : ExtSecretKey := List.replicate 64 7

theorem indexPath_digits (index : UInt32) :
    (KeyStore.indexPath 0 index).toList.drop 16 = Nat.toDigits 10 index.toNat := by
  simp only [KeyStore.indexPath, String.toList_append]
  change List.drop 16 (_ ++ _ ++ _ ++ (Nat.repr index.toNat).toList) = _
  rw [Nat.toList_repr, List.drop_left' (by decide)]

theorem sampleKeys_parsePath (index : UInt32) : sampleKeys.parsePath (KeyStore.indexPath 0 index) =
    if index.toNat < 2 ^ 31 then .ok [index] else .error "the number is too large" := by
  simp only [sampleKeys, indexPath_digits, Nat.ofDigitChars_ten_toDigits, UInt32.ofNat_toNat]

theorem sampleKeys_index {index : UInt32} {key : DerivedKey}
    (derived : indexKey sampleKeys sampleConfig .mainnet sampleMaster index = .ok key) :
    key.addressStr = Nat.repr index.toNat := by
  unfold indexKey KeyStore.deriveFrom at derived
  rw [Except.bind_ok_eq_ok] at derived
  obtain ⟨path, parsed, derived⟩ := derived
  have parsed : sampleKeys.parsePath (KeyStore.indexPath 0 index) = .ok path :=
    (Except.mapError_ok_iff _ _ _).mp parsed
  rw [sampleKeys_parsePath] at parsed
  split at parsed
  · cases parsed
    cases derived
    simp [sampleKeys]
  · cases parsed

theorem derivable_sample : Derivable sampleKeys sampleConfig sampleEncrypted sampleMaster where
  opens password seed other decrypted := by
    unfold KeyStore.decryptSeed at decrypted
    rw [Except.bind_ok_eq_ok] at decrypted
    obtain ⟨key, -, decrypted⟩ := decrypted
    by_cases right : key = [1]
    · subst right
      cases decrypted
      rfl
    · simp [sampleKeys, right] at decrypted
  normal index high path := by
    change sampleKeys.parsePath (KeyStore.indexPath 0 index) ≠ _
    rw [sampleKeys_parsePath, if_neg (Nat.not_lt_of_le high)]
    nofun
  injective i j key other derived derivedOther same := by
    rw [sampleKeys_index derived, sampleKeys_index derivedOther] at same
    have digits := congrArg String.toList same
    rw [Nat.toList_repr, Nat.toList_repr] at digits
    have number := congrArg (Nat.ofDigitChars 10 · 0) digits
    simp only [Nat.ofDigitChars_ten_toDigits] at number
    exact UInt32.toNat_inj.mp number

/-- The second address is handed out before the wallet is locked and unlocked, and a new one after. -/
def steadyActions : List WalletRun.Action :=
  [.unlock "open", .deriveAddress (KeyStore.indexPath 0 1), .lock, .unlock "open", .newAddress]

theorem steadyActions_handedOut {locked : WalletRun}
    (ran : run (WalletRun.step sampleKeys) (.loaded sampleConfig sampleEncrypted) (steadyActions.take 3) = some locked) :
    locked.handedOut = ["1"] := by
  have handed : (run (WalletRun.step sampleKeys) (.loaded sampleConfig sampleEncrypted) (steadyActions.take 3)).map
      WalletRun.handedOut = some ["1"] := by decide +kernel
  rw [ran] at handed
  exact Option.some.inj handed

theorem steadyActions_keepsHandedOut :
    Always (WalletRun.step sampleKeys) KeepsHandedOut (.loaded sampleConfig sampleEncrypted) steadyActions := by
  obtain ⟨last, ran⟩ : ∃ last, run (WalletRun.step sampleKeys) (.loaded sampleConfig sampleEncrypted) steadyActions =
      some last := Option.isSome_iff_exists.mp (by decide +kernel)
  refine (keepsHandedOut_iff sampleKeys sampleConfig sampleEncrypted sampleMaster derivable_sample steadyActions _
    ran).mpr ?_
  refine along_cons.mpr ⟨fun _ _ _ => List.forall_mem_nil _, fun opened first => ?_⟩
  refine along_cons.mpr ⟨nofun, fun handed second => along_cons.mpr ⟨nofun, fun closed third => ?_⟩⟩
  refine along_cons.mpr ⟨fun _ _ _ address member => ?_, fun _ _ => along_cons.mpr ⟨nofun, fun _ _ => along_nil⟩⟩
  have last := run_cons_eq_some.mpr ⟨closed, third, run_nil _ closed⟩
  have reached := run_cons_eq_some.mpr ⟨opened, first, run_cons_eq_some.mpr ⟨handed, second, last⟩⟩
  rw [steadyActions_handedOut reached, List.mem_singleton] at member
  refine ⟨1, by decide, ⟨[0], [1], [0], "1"⟩, ?_, member.symm⟩
  rw [indexKey, KeyStore.deriveFrom]
  change ((sampleKeys.parsePath (KeyStore.indexPath 0 1)).mapError _ >>= _) = _
  rw [sampleKeys_parsePath]
  rfl

/-- A wallet that is locked and unlocked after it has handed out an address. -/
def relockedActions : List WalletRun.Action := [.unlock "open", .newAddress, .lock, .unlock "open", .newAddress]

theorem relockedActions_repeated :
    ¬ Always (WalletRun.step sampleKeys) KeepsHandedOut (.loaded sampleConfig sampleEncrypted) relockedActions := by
  intro always
  have twice : (run (WalletRun.step sampleKeys) (.loaded sampleConfig sampleEncrypted) relockedActions).map
      WalletRun.created = some ["2", "2"] := by decide +kernel
  obtain ⟨last, ran, created⟩ := Option.map_eq_some_iff.mp twice
  have distinct := (always last ⟨relockedActions, List.prefix_rfl, ran⟩).distinct
  rw [created] at distinct
  exact absurd distinct (by decide)

end ErgoNode.Proof.Wallet
