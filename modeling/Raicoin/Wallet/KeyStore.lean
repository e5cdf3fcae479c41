import Raicoin.Common.BlockBuilder
import Raicoin.Common.Errors
import Raicoin.Lib.Ordered
import Raicoin.Lib.Table

-- The wallets with their keys, in memory and in the store. Ids are `uint32_t`.
namespace Raicoin.KeyStore

open Lib

-- AES in counter mode, the key derivation of passwords, BLAKE2b of a seed and an index,
-- and Ed25519.
structure Crypto where
  encrypt : RawKey → RawKey → BitVec 128 → Uint256
  decrypt : Uint256 → RawKey → BitVec 128 → RawKey
  deriveKey : String → Uint256 → RawKey
  derive : RawKey → UInt32 → RawKey
  generatePublicKey : RawKey → PublicKey

-- What the key store relies on: encryption can be undone, what zero is encrypted to tells
-- the key, and neither the keys of a seed nor public keys coincide.
structure Crypto.Sound (c : Crypto) : Prop where
  decrypt_encrypt : ∀ cleartext key iv, c.decrypt (c.encrypt cleartext key iv) key iv = cleartext
  check_injective : ∀ iv, Function.Injective fun key => c.encrypt 0 key iv
  derive_injective : ∀ seed, Function.Injective (c.derive seed)
  publicKey_injective : Function.Injective c.generatePublicKey

-- `std::numeric_limits<uint32_t>::max()`, the index of an imported account.
def ADHOC_INDEX : UInt32 := 0xffffffff

structure WalletAccountInfo where
  index : UInt32
  privateKey : Uint256
  publicKey : PublicKey
  deriving DecidableEq

structure WalletInfo where
  version : UInt32
  index : UInt32
  selectedAccountId : Nat
  salt : Uint256
  key : Uint256
  seed : Uint256
  check : Uint256
  deriving DecidableEq

-- `fan` holds the key that the password was turned into.
structure Wallet extends WalletInfo where
  fan : RawKey
  accounts : List (Nat × WalletAccountInfo)
  deriving DecidableEq

-- The `wallets_` table, whose keys with account id zero are those of the infos, and an
-- entry of the `meta_` table.
structure WalletTables where
  infos : Table Nat WalletInfo
  accountInfos : Table (Nat × Nat) WalletAccountInfo
  selectedWalletId : Option Nat

structure Wallets where
  tables : WalletTables
  wallets : List (Nat × Wallet)
  selectedWalletId : Nat

-- Which steps of an operation fail: the transaction cannot begin, or the n-th write.
structure Writes where
  refused : Bool
  fails : Nat → Bool

-- What an operation returns. `stopped` stands for an early return of a `void` function and for
-- the `true` of a `bool`.
inductive Answer where
  | done
  | code (code : ErrorCode)
  | stopped
  deriving DecidableEq

-- The loops of `NewAccountId_` and `NewWalletId_`.
def newId (ids : List Nat) : Nat :=
  ids.foldl (fun result id => if id ≥ result then (id + 1) % 2 ^ 32 else result) 1

namespace WalletTables

variable (t : WalletTables)

def walletInfoPut (fails : Bool) (id : Nat) (info : WalletInfo) : Option WalletTables :=
  if id = 0 ∨ fails then none else some { t with infos := t.infos.put id info }

def walletAccountInfoPut (fails : Bool) (walletId accountId : Nat) (info : WalletAccountInfo) :
    Option WalletTables :=
  if (walletId = 0 ∨ accountId = 0) ∨ fails then none
  else some { t with accountInfos := t.accountInfos.put (walletId, accountId) info }

def selectedWalletIdPut (fails : Bool) (id : Nat) : Option WalletTables :=
  if fails then none else some { t with selectedWalletId := some id }

def walletInfoGetAll : List (Nat × WalletInfo) :=
  t.infos.entriesIn (inOrder (· ≤ ·) t.infos.keys)

-- From account id 1 up to, but without, the largest.
def walletAccountInfoGetAll (walletId : Nat) : List (Nat × WalletAccountInfo) :=
  let keys := t.accountInfos.keys.filter fun key =>
    key.1 = walletId ∧ 1 ≤ key.2 ∧ key.2 < 2 ^ 32 - 1
  (inOrder (· ≤ ·) (keys.image Prod.snd)).filterMap fun accountId =>
    (t.accountInfos.get (walletId, accountId)).map (accountId, ·)

-- The wallets that the constructor of `Wallets` makes of the tables.
def load : List (Nat × Wallet) :=
  t.walletInfoGetAll.map fun (id, info) =>
    (id, { info with fan := 0, accounts := t.walletAccountInfoGetAll id })

end WalletTables

namespace Wallet

variable (c : Crypto) (w : Wallet)

-- `salt_.owords[0]`
def iv : BitVec 128 := BitVec.ofNat 128 (w.salt.toNat >>> 128)

def key_ : RawKey := c.decrypt w.key w.fan w.iv

def seed_ : RawKey := c.decrypt w.seed (w.key_ c) w.iv

def decrypt_ (encrypted : Uint256) : RawKey := c.decrypt encrypted (w.key_ c) w.iv

def validPassword_ : Bool := c.encrypt 0 (w.key_ c) w.iv = w.check

def newAccountId_ : Nat := newId (w.accounts.map Prod.fst)

def isMyAccount (account : Account) : Bool := w.accounts.any fun i => account = i.2.publicKey

def selectedAccount : Account :=
  ((w.accounts.find? fun i => w.selectedAccountId = i.1).map fun i => i.2.publicKey).getD 0

-- A new account of the given key.
def emplace (index : UInt32) (privateKey : RawKey) : Wallet × Nat :=
  let info : WalletAccountInfo :=
    ⟨index, c.encrypt privateKey (w.key_ c) w.iv, c.generatePublicKey privateKey⟩
  let accountId := w.newAccountId_
  ({ w with accounts := w.accounts ++ [(accountId, info)] }, accountId)

def createAccount_ : Wallet × Nat :=
  let privateKey := c.derive (w.seed_ c) w.index
  let w := { w with index := w.index + 1 }
  w.emplace c (w.index - 1) privateKey

-- Both constructors that make a new wallet; without a seed, that is random as well.
def create (salt : Uint256) (key seed : RawKey) : Wallet :=
  let iv := BitVec.ofNat 128 (salt.toNat >>> 128)
  let fan : RawKey := 0
  let w : Wallet := {
    version := 1
    index := 0
    selectedAccountId := 0
    salt
    key := c.encrypt key fan iv
    seed := c.encrypt seed key iv
    check := c.encrypt 0 key iv
    fan
    accounts := [] }
  let (w, accountId) := w.createAccount_ c
  { w with selectedAccountId := accountId }

def createAccount : Except ErrorCode (Wallet × Nat) :=
  if w.validPassword_ c = false then .error .WALLET_LOCKED else .ok (w.createAccount_ c)

-- The public key of a pair is that of its private key.
def importAccount (privateKey : RawKey) : Except ErrorCode (Wallet × Nat) :=
  if w.validPassword_ c = false then .error .WALLET_LOCKED
  else if w.accounts.any (fun i => i.2.publicKey = c.generatePublicKey privateKey) then
    .error .WALLET_ACCOUNT_EXISTS
  else .ok (w.emplace c ADHOC_INDEX privateKey)

def changePassword (password : String) : Except ErrorCode Wallet :=
  if w.validPassword_ c = false then .error .WALLET_LOCKED
  else
    let kdf := c.deriveKey password w.salt
    let key := w.key_ c
    .ok { w with fan := kdf, key := c.encrypt key kdf w.iv }

def attemptPassword (password : String) : Wallet × Bool :=
  let w := { w with fan := c.deriveKey password w.salt }
  (w, !w.validPassword_ c)

def lock : Wallet := if w.validPassword_ c = false then w else { w with fan := 0 }

-- `none` is an error.
def selectAccount (accountId : Nat) : Option Wallet :=
  if accountId = w.selectedAccountId then none
  else if w.accounts.any (fun i => accountId = i.1) then
    some { w with selectedAccountId := accountId }
  else none

def storeInfo (fails : Bool) (t : WalletTables) (walletId : Nat) : Except ErrorCode WalletTables :=
  match t.walletInfoPut fails walletId w.toWalletInfo with
  | none => .error .WALLET_INFO_PUT
  | some t => .ok t

def storeAccount (fails : Bool) (t : WalletTables) (walletId accountId : Nat) :
    Except ErrorCode WalletTables :=
  match w.accounts.find? fun i => i.1 = accountId with
  | none => .error .WALLET_ACCOUNT_GET
  | some i =>
    match t.walletAccountInfoPut fails walletId i.1 i.2 with
    | none => .error .WALLET_ACCOUNT_INFO_PUT
    | some t => .ok t

-- The loop of `Store`; the writes are numbered from `count` on.
def storeAccounts (fails : Nat → Bool) (walletId : Nat) :
    WalletTables → Nat → List (Nat × WalletAccountInfo) → Except ErrorCode WalletTables
  | t, _, [] => .ok t
  | t, count, i :: rest =>
    match t.walletAccountInfoPut (fails count) walletId i.1 i.2 with
    | none => .error .WALLET_ACCOUNT_INFO_PUT
    | some t => storeAccounts fails walletId t (count + 1) rest

def store (fails : Nat → Bool) (t : WalletTables) (walletId : Nat) :
    Except ErrorCode WalletTables :=
  match w.storeInfo (fails 0) t walletId with
  | .error code => .error code
  | .ok t => storeAccounts fails walletId t 1 w.accounts

end Wallet

namespace Wallets

variable (c : Crypto) (writes : Writes) (s : Wallets)

def wallet_ (walletId : Nat) : Option Wallet :=
  (s.wallets.find? fun i => i.1 = walletId).map Prod.snd

def newWalletId_ : Nat := newId (s.wallets.map Prod.fst)

-- The wallet with the id has changed in place.
def set (walletId : Nat) (w : Wallet) : Wallets :=
  { s with wallets := s.wallets.map fun i => if i.1 = walletId then (i.1, w) else i }

-- A new wallet is stored before it is taken in.
def addWallet (w : Wallet) : Wallets × Answer :=
  let walletId := s.newWalletId_
  if walletId = 0 then (s, .code .GENERIC)
  else
    match w.store writes.fails s.tables walletId with
    | .error code => (s, .code code)
    | .ok tables => ({ s with tables, wallets := s.wallets ++ [(walletId, w)] }, .done)

-- The salt, the key and the seed are random.
def createWallet (salt : Uint256) (key seed : RawKey) : Wallets × Answer :=
  let w := Wallet.create c salt key seed
  if writes.refused then (s, .code .MDB_TXN_BEGIN) else s.addWallet writes w

def importWallet (salt : Uint256) (key seed : RawKey) : Wallets × Answer :=
  let w := Wallet.create c salt key seed
  if writes.refused then (s, .code .MDB_TXN_BEGIN)
  else if s.wallets.any (fun i => i.2.isMyAccount w.selectedAccount) then
    (s, .code .WALLET_EXISTS)
  else s.addWallet writes w

def createAccount : Wallets × Answer :=
  if writes.refused then (s, .code .MDB_TXN_BEGIN)
  else
    match s.wallet_ s.selectedWalletId with
    | none => (s, .code .WALLET_GET)
    | some w =>
      match w.createAccount c with
      | .error code => (s, .code code)
      | .ok (w, accountId) =>
        -- the wallet in memory has the account from here on
        let s := s.set s.selectedWalletId w
        match w.storeAccount (writes.fails 0) s.tables s.selectedWalletId accountId with
        | .error code => (s, .code code)
        | .ok tables =>
          match w.storeInfo (writes.fails 1) tables s.selectedWalletId with
          | .error code => (s, .code code)
          | .ok tables => ({ s with tables }, .done)

-- Here the source does not look whether there is a selected wallet.
def importAccount (privateKey : RawKey) : Wallets × Answer :=
  if writes.refused then (s, .code .MDB_TXN_BEGIN)
  else
    match s.wallet_ s.selectedWalletId with
    | none => (s, .code .WALLET_GET)
    | some w =>
      match w.importAccount c privateKey with
      | .error code => (s, .code code)
      | .ok (w, accountId) =>
        let s := s.set s.selectedWalletId w
        match w.storeAccount (writes.fails 0) s.tables s.selectedWalletId accountId with
        | .error code => (s, .code code)
        | .ok tables => ({ s with tables }, .done)

def changePassword (password : String) : Wallets × Answer :=
  if writes.refused then (s, .code .MDB_TXN_BEGIN)
  else
    match s.wallet_ s.selectedWalletId with
    | none => (s, .code .WALLET_GET)
    | some w =>
      match w.changePassword c password with
      | .error code => (s, .code code)
      | .ok w =>
        let s := s.set s.selectedWalletId w
        match w.storeInfo (writes.fails 0) s.tables s.selectedWalletId with
        | .error code => (s, .code code)
        | .ok tables => ({ s with tables }, .done)

def enterPassword (password : String) : Wallets × Answer :=
  match s.wallet_ s.selectedWalletId with
  | none => (s, .stopped)
  | some w =>
    let (w, error) := w.attemptPassword c password
    (s.set s.selectedWalletId w, if error then .stopped else .done)

def lockWallet (walletId : Nat) : Wallets × Answer :=
  match s.wallet_ walletId with
  | none => (s, .stopped)
  | some w => (s.set walletId (w.lock c), .done)

def selectAccount (accountId : Nat) : Wallets × Answer :=
  if writes.refused then (s, .stopped)
  else
    match s.wallet_ s.selectedWalletId with
    | none => (s, .stopped)
    | some w =>
      match w.selectAccount accountId with
      | none => (s, .stopped)
      | some w =>
        let s := s.set s.selectedWalletId w
        match w.storeInfo (writes.fails 0) s.tables s.selectedWalletId with
        | .error _ => (s, .stopped)
        | .ok tables => ({ s with tables }, .done)

def selectWallet (walletId : Nat) : Wallets × Answer :=
  if writes.refused then (s, .stopped)
  else if walletId = s.selectedWalletId then (s, .stopped)
  else if s.wallets.any (fun i => walletId = i.1) then
    match s.tables.selectedWalletIdPut (writes.fails 0) walletId with
    | none => (s, .stopped)
    | some tables => ({ s with tables, selectedWalletId := walletId }, .done)
  else (s, .stopped)

-- What the constructor makes of an empty store.
def initial (salt : Uint256) (key seed : RawKey) : Wallets :=
  let w := Wallet.create c salt key seed
  let empty : WalletTables := ⟨.empty, .empty, none⟩
  match w.store (fun _ => false) empty 1 with
  | .error _ => ⟨empty, [], 0⟩
  | .ok tables => ⟨{ tables with selectedWalletId := some 1 }, [(1, w)], 1⟩

end Wallets

end Raicoin.KeyStore
