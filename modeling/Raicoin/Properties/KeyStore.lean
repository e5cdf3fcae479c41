import Raicoin.Lib.Machine
import Raicoin.Wallet.KeyStore

-- The wallets in memory, their keys, and what a restart would load.
namespace Raicoin.KeyStore

open Lib

section Ids

variable {ids : List Nat}

private theorem newId_next (hsorted : ids.Pairwise (· < ·))
    (hbound : ∀ id ∈ ids, 1 ≤ id ∧ id < 2 ^ 32) :
    newId ids = 0 ∧ 2 ^ 32 - 1 ∈ ids ∨ newId ids < 2 ^ 32 ∧ (∀ id ∈ ids, id < newId ids) ∧
      (newId ids = 1 ∨ ∃ id ∈ ids, newId ids = id + 1) := by
  induction ids using List.reverseRecOn with
  | nil => exact .inr ⟨by decide, List.forall_mem_nil _, .inl rfl⟩
  | append_singleton ids last ih =>
      have hfold : newId (ids ++ [last]) =
          if last ≥ newId ids then (last + 1) % 2 ^ 32 else newId ids := by
        rw [newId, List.foldl_append]
        rfl
      obtain ⟨hids, -, hlt⟩ := List.pairwise_append.mp hsorted
      obtain ⟨hpos, hlast⟩ := hbound last (by simp)
      have hle : newId ids ≤ last := by
        rcases ih hids fun id hmem => hbound id (List.mem_append_left _ hmem) with
          ⟨hzero, -⟩ | ⟨-, -, hone | ⟨id, hmem, heq⟩⟩
        · omega
        · omega
        · have := hlt id hmem last List.mem_cons_self
          omega
      rw [hfold, if_pos hle]
      by_cases hwrap : last + 1 = 2 ^ 32
      · exact .inl ⟨by omega, by simp [← hwrap]⟩
      · rw [Nat.mod_eq_of_lt (by omega)]
        refine .inr ⟨by omega, fun id hmem => ?_, .inr ⟨last, by simp, rfl⟩⟩
        rcases List.mem_append.mp hmem with hmem | hmem
        · have := hlt id hmem last List.mem_cons_self
          omega
        · rw [List.mem_singleton.mp hmem]
          exact Nat.lt_succ_self last

-- A new id is larger than all that are there, unless there are none left.
theorem newId_spec (hsorted : ids.Pairwise (· < ·))
    (hbound : ∀ id ∈ ids, 1 ≤ id ∧ id < 2 ^ 32) (hne : newId ids ≠ 0) :
    newId ids < 2 ^ 32 ∧ ∀ id ∈ ids, id < newId ids := by
  obtain ⟨hlt, hids, -⟩ := (newId_next hsorted hbound).resolve_left fun hzero => hne hzero.1
  exact ⟨hlt, hids⟩

theorem newId_pos (hsorted : ids.Pairwise (· < ·))
    (hbound : ∀ id ∈ ids, 1 ≤ id ∧ id < 2 ^ 32 - 1) : 1 ≤ newId ids := by
  have hwide : ∀ id ∈ ids, 1 ≤ id ∧ id < 2 ^ 32 := fun id hmem => by
    have := hbound id hmem
    omega
  rcases newId_next hsorted hwide with ⟨-, hmem⟩ | ⟨-, -, hone | ⟨id, -, heq⟩⟩
  · have := hbound _ hmem
    omega
  · omega
  · omega

-- There are fewer ids than the next one.
theorem length_lt_of_lt {bound : Nat} (hsorted : ids.Pairwise (· < ·))
    (hbound : ∀ id ∈ ids, 1 ≤ id ∧ id < bound) (hpos : 0 < bound) : ids.length < bound := by
  have hsub : ids ⊆ List.range' 1 (bound - 1) := by
    intro id hmem
    obtain ⟨hlow, hhigh⟩ := hbound id hmem
    rw [List.mem_range'_1]
    omega
  have hnodup : ids.Nodup := hsorted.imp fun h => Nat.ne_of_lt h
  have hle := (hnodup.subperm hsub).length_le
  rw [List.length_range'] at hle
  omega

-- A sorted list is what the iteration over its elements gives.
theorem inOrder_of_sorted {keys : Finset Nat} (hsorted : ids.Pairwise (· < ·))
    (hmem : ∀ id, id ∈ keys ↔ id ∈ ids) : inOrder (· ≤ ·) keys = ids := by
  have hperm : (inOrder (· ≤ ·) keys).Perm ids := by
    rw [List.perm_ext_iff_of_nodup (nodup_inOrder _ _) (hsorted.imp fun h => Nat.ne_of_lt h)]
    intro id
    rw [mem_inOrder, hmem]
  exact hperm.eq_of_pairwise' (pairwise_inOrder _ _) (hsorted.imp fun h => Nat.le_of_lt h)

-- Entries that are found one by one make up the list that they come from.
theorem filterMap_found {ν : Type} {entries : List (Nat × ν)} {get : Nat → Option ν}
    (h : ∀ entry ∈ entries, get entry.1 = some entry.2) :
    ((entries.map Prod.fst).filterMap fun id => (get id).map (id, ·)) = entries := by
  induction entries with
  | nil => rfl
  | cons entry entries ih =>
      obtain ⟨hentry, hrest⟩ := List.forall_mem_cons.mp h
      rw [List.map_cons, List.filterMap_cons, hentry]
      dsimp only [Option.map_some]
      rw [ih hrest]

end Ids

variable {c : Crypto} {w w' : Wallet} {key seed : RawKey}

-- The indexes of the accounts that come from the seed, in the order of the accounts.
def derivedIndexes (w : Wallet) : List Nat :=
  (w.accounts.filter fun i => i.2.index ≠ ADHOC_INDEX).map fun i => i.2.index.toNat

def publicKeys (w : Wallet) : List PublicKey := w.accounts.map fun i => i.2.publicKey

-- The wallet under its key and its seed, whether it is locked or not.
structure WalletKept (c : Crypto) (key seed : RawKey) (w : Wallet) : Prop where
  check : w.check = c.encrypt 0 key w.iv
  seeded : w.seed = c.encrypt seed key w.iv
  ids : (w.accounts.map Prod.fst).Pairwise (· < ·)
  idsIn : ∀ id ∈ w.accounts.map Prod.fst, 1 ≤ id ∧ id < 2 ^ 32 - 1
  apart : (publicKeys w).Nodup
  keys : ∀ i ∈ w.accounts, ∃ privateKey, i.2.privateKey = c.encrypt privateKey key w.iv ∧
    i.2.publicKey = c.generatePublicKey privateKey ∧
    (i.2.index ≠ ADHOC_INDEX → privateKey = c.derive seed i.2.index)
  derived : derivedIndexes w = List.range w.index.toNat

namespace WalletKept

-- What the password has to do with is not among it.
theorem of_eq (h : WalletKept c key seed w) (hindex : w'.index = w.index) (hsalt : w'.salt = w.salt)
    (hseed : w'.seed = w.seed) (hcheck : w'.check = w.check) (haccounts : w'.accounts = w.accounts) :
    WalletKept c key seed w' := by
  have hiv : w'.iv = w.iv := by rw [Wallet.iv, Wallet.iv, hsalt]
  constructor
  case check => rw [hcheck, hiv, h.check]
  case seeded => rw [hseed, hiv, h.seeded]
  case ids => rw [haccounts]; exact h.ids
  case idsIn => rw [haccounts]; exact h.idsIn
  case apart => unfold publicKeys; rw [haccounts]; exact h.apart
  case keys => rw [haccounts, hiv]; exact h.keys
  case derived => unfold derivedIndexes; rw [haccounts, hindex]; exact h.derived

-- An unlocked wallet has its key.
theorem key_eq (h : WalletKept c key seed w) (hsound : c.Sound) (hvalid : w.validPassword_ c = true) :
    w.key_ c = key := by
  apply hsound.check_injective w.iv
  exact (of_decide_eq_true hvalid).trans h.check

theorem seed_eq (h : WalletKept c key seed w) (hsound : c.Sound) (hkey : w.key_ c = key) :
    w.seed_ c = seed := by
  rw [Wallet.seed_, hkey, h.seeded, hsound.decrypt_encrypt]

theorem index_lt (h : WalletKept c key seed w) (hroom : w.newAccountId_ < 2 ^ 32 - 1) :
    w.index.toNat < 2 ^ 32 - 1 := by
  have hids : ∀ id ∈ w.accounts.map Prod.fst, 1 ≤ id ∧ id < w.newAccountId_ := fun id hmem =>
    ⟨(h.idsIn id hmem).1, (newId_spec h.ids (fun id hmem => by have := h.idsIn id hmem; omega)
      (by have := newId_pos h.ids h.idsIn; omega)).2 id hmem⟩
  have hpos := newId_pos h.ids h.idsIn
  have hlength := length_lt_of_lt h.ids hids hpos
  have hderived := congrArg List.length h.derived
  rw [derivedIndexes, List.length_map, List.length_range] at hderived
  have hle := List.length_filter_le (fun i : Nat × WalletAccountInfo => i.2.index ≠ ADHOC_INDEX)
    w.accounts
  rw [List.length_map] at hlength
  omega

-- A wallet with one more account, under the next id.
theorem append (h : WalletKept c key seed w) (hkey : w.key_ c = key) {index : UInt32}
    {privateKey : RawKey} (hroom : w.newAccountId_ < 2 ^ 32 - 1)
    (hfresh : c.generatePublicKey privateKey ∉ publicKeys w)
    (hprivate : index ≠ ADHOC_INDEX → privateKey = c.derive seed index)
    (hsalt : w'.salt = w.salt) (hseed : w'.seed = w.seed) (hcheck : w'.check = w.check)
    (haccounts : w'.accounts = w.accounts ++ [(w.newAccountId_, ⟨index,
      c.encrypt privateKey (w.key_ c) w.iv, c.generatePublicKey privateKey⟩)])
    (hderived : derivedIndexes w' = List.range w'.index.toNat) : WalletKept c key seed w' := by
  have hiv : w'.iv = w.iv := by rw [Wallet.iv, Wallet.iv, hsalt]
  have hpos := newId_pos h.ids h.idsIn
  obtain ⟨-, hlarger⟩ := newId_spec h.ids (fun id hmem => by have := h.idsIn id hmem; omega)
    (show newId (w.accounts.map Prod.fst) ≠ 0 by omega)
  constructor
  case check => rw [hcheck, hiv, h.check]
  case seeded => rw [hseed, hiv, h.seeded]
  case ids =>
    rw [haccounts, List.map_append, List.pairwise_append]
    refine ⟨h.ids, List.pairwise_singleton _ _, fun id hmem next hnext => ?_⟩
    rw [List.mem_singleton.mp hnext]
    exact hlarger id hmem
  case idsIn =>
    rw [haccounts, List.map_append]
    intro id hmem
    rcases List.mem_append.mp hmem with hold | hnew
    · exact h.idsIn id hold
    · rw [List.mem_singleton.mp hnew]
      exact ⟨hpos, hroom⟩
  case apart =>
    unfold publicKeys
    rw [haccounts, List.map_append]
    refine List.Nodup.append h.apart (List.nodup_singleton _) ?_
    intro publicKey hold hnew
    rw [List.map_singleton, List.mem_singleton] at hnew
    subst hnew
    exact hfresh hold
  case keys =>
    rw [haccounts, hiv]
    intro i hmem
    rcases List.mem_append.mp hmem with hold | hnew
    · exact h.keys i hold
    · rw [List.mem_singleton.mp hnew, hkey]
      exact ⟨privateKey, rfl, rfl, hprivate⟩
  case derived => exact hderived

private theorem derivedIndexes_append {i : Nat × WalletAccountInfo}
    (h : w'.accounts = w.accounts ++ [i]) : derivedIndexes w' =
      if i.2.index ≠ ADHOC_INDEX then derivedIndexes w ++ [i.2.index.toNat]
      else derivedIndexes w := by
  unfold derivedIndexes
  rw [h, List.filter_append, List.map_append, List.filter_singleton]
  split_ifs <;> simp_all

theorem importAccount (h : WalletKept c key seed w) (hkey : w.key_ c = key) {privateKey : RawKey}
    (hroom : w.newAccountId_ < 2 ^ 32 - 1)
    (hfresh : c.generatePublicKey privateKey ∉ publicKeys w) :
    WalletKept c key seed (w.emplace c ADHOC_INDEX privateKey).1 := by
  refine h.append hkey hroom hfresh (fun hne => absurd rfl hne) rfl rfl rfl rfl ?_
  rw [derivedIndexes_append (w := w) rfl, if_neg (not_not_intro rfl)]
  exact h.derived

theorem createAccount (h : WalletKept c key seed w) (hsound : c.Sound) (hkey : w.key_ c = key)
    (hroom : w.newAccountId_ < 2 ^ 32 - 1)
    (hfresh : c.generatePublicKey (c.derive (w.seed_ c) w.index) ∉ publicKeys w) :
    WalletKept c key seed (w.createAccount_ c).1 := by
  have hindex := h.index_lt hroom
  have hback : w.index + 1 - 1 = w.index := UInt32.add_sub_cancel _ _
  have hnext : (w.index + 1).toNat = w.index.toNat + 1 := by
    rw [UInt32.toNat_add]
    exact Nat.mod_eq_of_lt (by change w.index.toNat + 1 < 2 ^ 32; omega)
  have hne : w.index ≠ ADHOC_INDEX := by
    intro heq
    rw [heq] at hindex
    exact absurd hindex (by decide)
  have hseed := h.seed_eq hsound hkey
  have haccounts : (w.createAccount_ c).1.accounts = w.accounts ++ [(w.newAccountId_, ⟨w.index,
      c.encrypt (c.derive (w.seed_ c) w.index) (w.key_ c) w.iv,
      c.generatePublicKey (c.derive (w.seed_ c) w.index)⟩)] := by
    unfold Wallet.createAccount_ Wallet.emplace
    dsimp only
    rw [hback]
    rfl
  refine h.append hkey hroom hfresh (fun _ => by rw [hseed]) rfl rfl rfl haccounts ?_
  rw [derivedIndexes_append haccounts, if_pos hne, h.derived]
  change _ = List.range (w.index + 1).toNat
  rw [hnext, List.range_succ]

theorem create (hsound : c.Sound) (salt : Uint256) (key seed : RawKey) :
    WalletKept c key seed (Wallet.create c salt key seed) := by
  let iv := BitVec.ofNat 128 (salt.toNat >>> 128)
  let empty : Wallet := {
    version := 1
    index := 0
    selectedAccountId := 0
    salt
    key := c.encrypt key 0 iv
    seed := c.encrypt seed key iv
    check := c.encrypt 0 key iv
    fan := 0
    accounts := [] }
  have hempty : WalletKept c key seed empty :=
    ⟨rfl, rfl, List.Pairwise.nil, List.forall_mem_nil _, List.nodup_nil, List.forall_mem_nil _, rfl⟩
  have hkey : empty.key_ c = key := hsound.decrypt_encrypt key 0 iv
  have hfirst := hempty.createAccount hsound hkey (show 1 < 2 ^ 32 - 1 by decide)
    (List.not_mem_nil)
  exact hfirst.of_eq rfl rfl rfl rfl rfl

end WalletKept

-- The memory over the tables, but for the selected wallet.
structure Stored (c : Crypto) (s : Wallets) : Prop where
  ids : (s.wallets.map Prod.fst).Pairwise (· < ·)
  idsIn : ∀ id ∈ s.wallets.map Prod.fst, 1 ≤ id ∧ id < 2 ^ 32
  wallets : ∀ i ∈ s.wallets, ∃ key seed, WalletKept c key seed i.2
  infos : ∀ id info, s.tables.infos.get id = some info ↔
    ∃ w, (id, w) ∈ s.wallets ∧ w.toWalletInfo = info
  accountInfos : ∀ id accountId info, s.tables.accountInfos.get (id, accountId) = some info ↔
    ∃ w, (id, w) ∈ s.wallets ∧ (accountId, info) ∈ w.accounts

structure Kept (c : Crypto) (s : Wallets) : Prop extends Stored c s where
  selected : s.tables.selectedWalletId = some s.selectedWalletId
  selectedIn : s.selectedWalletId ∈ s.wallets.map Prod.fst

-- A wallet as it is right after a restart.
def Wallet.reset (w : Wallet) : Wallet := { w with fan := 0 }

def Wallets.reset (s : Wallets) : List (Nat × Wallet) := s.wallets.map fun i => (i.1, i.2.reset)

-- A restart would load what is in memory.
structure Reloads (s : Wallets) : Prop where
  wallets : s.tables.load = s.reset
  selected : s.tables.selectedWalletId = some s.selectedWalletId

variable {s s' : Wallets} {id : Nat}

namespace Kept

theorem id_unique (h : Kept c s) (hw : (id, w) ∈ s.wallets) (hw' : (id, w') ∈ s.wallets) :
    w = w' := by
  have hnodup : (s.wallets.map Prod.fst).Nodup := h.ids.imp fun hlt => Nat.ne_of_lt hlt
  exact (Prod.mk.inj (List.inj_on_of_nodup_map hnodup hw hw' rfl)).2

theorem wallet_mem (h : s.wallet_ id = some w) : (id, w) ∈ s.wallets := by
  obtain ⟨⟨k, v⟩, hfind, rfl⟩ := Option.map_eq_some_iff.mp h
  have hk : k = id := by simpa using List.find?_some hfind
  exact hk ▸ List.mem_of_find?_eq_some hfind

theorem accounts_get (h : Kept c s) (hw : (id, w) ∈ s.wallets) (accountId : Nat)
    (info : WalletAccountInfo) :
    s.tables.accountInfos.get (id, accountId) = some info ↔ (accountId, info) ∈ w.accounts := by
  rw [h.accountInfos]
  constructor
  · rintro ⟨w', hw', hmem⟩
    rwa [h.id_unique hw hw']
  · exact fun hmem => ⟨w, hw, hmem⟩

theorem loads_accounts (h : Kept c s) (hw : (id, w) ∈ s.wallets) :
    s.tables.walletAccountInfoGetAll id = w.accounts := by
  obtain ⟨key, seed, hkept⟩ := h.wallets _ hw
  have hget := h.accounts_get hw
  unfold WalletTables.walletAccountInfoGetAll
  dsimp only
  rw [inOrder_of_sorted hkept.ids]
  · exact filterMap_found fun entry hmem => (hget entry.1 entry.2).mpr hmem
  · intro accountId
    simp only [Finset.mem_image, Finset.mem_filter, Table.mem_keys, List.mem_map, Prod.exists]
    constructor
    · rintro ⟨k, a, ⟨⟨info, hinfo⟩, rfl, -, -⟩, rfl⟩
      exact ⟨a, info, (hget a info).mp hinfo, rfl⟩
    · rintro ⟨a, info, hmem, rfl⟩
      have hin := hkept.idsIn a (List.mem_map.mpr ⟨_, hmem, rfl⟩)
      exact ⟨id, a, ⟨⟨info, (hget a info).mpr hmem⟩, rfl, hin.1, hin.2⟩, rfl⟩

theorem reloads (h : Kept c s) : Reloads s where
  selected := h.selected
  wallets := by
    have hinfos : s.tables.walletInfoGetAll = s.wallets.map fun i => (i.1, i.2.toWalletInfo) := by
      have hsorted : ((s.wallets.map fun i => (i.1, i.2.toWalletInfo)).map Prod.fst).Pairwise
          (· < ·) := by
        rw [List.map_map]
        exact h.ids
      unfold WalletTables.walletInfoGetAll Table.entriesIn
      rw [inOrder_of_sorted hsorted]
      · apply filterMap_found
        rintro entry hmem
        obtain ⟨⟨k, v⟩, hv, rfl⟩ := List.mem_map.mp hmem
        exact (h.infos k _).mpr ⟨v, hv, rfl⟩
      · intro k
        simp only [Table.mem_keys, List.map_map, List.mem_map, Function.comp_apply, Prod.exists]
        constructor
        · rintro ⟨info, hget⟩
          obtain ⟨v, hv, -⟩ := (h.infos k info).mp hget
          exact ⟨k, v, hv, rfl⟩
        · rintro ⟨a, v, hv, rfl⟩
          exact ⟨_, (h.infos _ _).mpr ⟨v, hv, rfl⟩⟩
    rw [WalletTables.load, hinfos, List.map_map, Wallets.reset]
    apply List.map_congr_left
    rintro ⟨k, v⟩ hv
    change (k, ({ v.toWalletInfo with fan := 0, accounts := s.tables.walletAccountInfoGetAll k } :
      Wallet)) = (k, v.reset)
    rw [h.loads_accounts hv]
    rfl

theorem mem_set {k : Nat} {v : Wallet} : (k, v) ∈ (s.set id w).wallets ↔
    (k = id ∧ v = w ∧ id ∈ s.wallets.map Prod.fst) ∨ (k ≠ id ∧ (k, v) ∈ s.wallets) := by
  simp only [Wallets.set, List.mem_map, Prod.exists]
  constructor
  · rintro ⟨a, b, hmem, heq⟩
    by_cases ha : a = id
    · rw [if_pos ha] at heq
      cases heq
      exact .inl ⟨ha, rfl, _, _, hmem, ha⟩
    · rw [if_neg ha] at heq
      cases heq
      exact .inr ⟨ha, hmem⟩
  · rintro (⟨rfl, rfl, a, b, hmem, rfl⟩ | ⟨hne, hmem⟩)
    · exact ⟨a, b, hmem, if_pos rfl⟩
    · exact ⟨k, v, hmem, if_neg hne⟩

theorem set_ids : (s.set id w).wallets.map Prod.fst = s.wallets.map Prod.fst := by
  rw [Wallets.set, List.map_map]
  apply List.map_congr_left
  rintro ⟨k, v⟩ -
  dsimp only [Function.comp_apply]
  split <;> rfl

-- One wallet has changed, in memory and in the tables.
theorem update (h : Kept c s) (hw : (id, w) ∈ s.wallets) {tables : WalletTables}
    (hw' : ∃ key seed, WalletKept c key seed w')
    (hinfos : ∀ k, tables.infos.get k =
      if k = id then some w'.toWalletInfo else s.tables.infos.get k)
    (haccounts : ∀ k accountId info, tables.accountInfos.get (k, accountId) = some info ↔
      if k = id then (accountId, info) ∈ w'.accounts
      else s.tables.accountInfos.get (k, accountId) = some info)
    (hselected : tables.selectedWalletId = s.tables.selectedWalletId) :
    Kept c { s.set id w' with tables } := by
  have hid : id ∈ s.wallets.map Prod.fst := List.mem_map.mpr ⟨_, hw, rfl⟩
  refine ⟨⟨?ids, ?idsIn, ?wallets, ?infos, ?accountInfos⟩, ?selected, ?selectedIn⟩
  case ids =>
    change ((s.set id w').wallets.map Prod.fst).Pairwise _
    rw [set_ids]
    exact h.ids
  case idsIn =>
    change ∀ k ∈ (s.set id w').wallets.map Prod.fst, _
    rw [set_ids]
    exact h.idsIn
  case wallets =>
    rintro ⟨k, v⟩ hv
    rcases mem_set.mp hv with ⟨-, rfl, -⟩ | ⟨-, hold⟩
    · exact hw'
    · exact h.wallets _ hold
  case infos =>
    intro k info
    change tables.infos.get k = some info ↔ ∃ v, (k, v) ∈ (s.set id w').wallets ∧ _
    rw [hinfos]
    by_cases hk : k = id
    · subst hk
      rw [if_pos rfl, Option.some_inj]
      constructor
      · exact fun heq => ⟨w', mem_set.mpr (.inl ⟨rfl, rfl, hid⟩), heq⟩
      · rintro ⟨v, hv, rfl⟩
        rcases mem_set.mp hv with ⟨-, rfl, -⟩ | ⟨hne, -⟩
        · rfl
        · exact absurd rfl hne
    · rw [if_neg hk, h.infos]
      apply exists_congr
      intro v
      rw [mem_set]
      simp [hk]
  case accountInfos =>
    intro k accountId info
    change tables.accountInfos.get (k, accountId) = some info ↔
      ∃ v, (k, v) ∈ (s.set id w').wallets ∧ _
    rw [haccounts]
    by_cases hk : k = id
    · subst hk
      rw [if_pos rfl]
      constructor
      · exact fun hmem => ⟨w', mem_set.mpr (.inl ⟨rfl, rfl, hid⟩), hmem⟩
      · rintro ⟨v, hv, hmem⟩
        rcases mem_set.mp hv with ⟨-, rfl, -⟩ | ⟨hne, -⟩
        · exact hmem
        · exact absurd rfl hne
    · rw [if_neg hk, h.accountInfos]
      apply exists_congr
      intro v
      rw [mem_set]
      simp [hk]
  case selected => exact hselected.trans h.selected
  case selectedIn =>
    change s.selectedWalletId ∈ (s.set id w').wallets.map Prod.fst
    rw [set_ids]
    exact h.selectedIn

theorem id_ne_zero (h : Kept c s) (hw : (id, w) ∈ s.wallets) : id ≠ 0 := by
  have := (h.idsIn id (List.mem_map.mpr ⟨_, hw, rfl⟩)).1
  omega

-- The accounts of the wallet are as they were.
theorem update_info (h : Kept c s) (hw : (id, w) ∈ s.wallets)
    (hw' : ∃ key seed, WalletKept c key seed w') (haccounts : w'.accounts = w.accounts) :
    Kept c { s.set id w' with
      tables := { s.tables with infos := s.tables.infos.put id w'.toWalletInfo } } := by
  refine h.update hw hw' (fun k => ?_) (fun k accountId info => ?_) rfl
  · exact Table.get_put _ _ _ _
  · by_cases hk : k = id
    · subst hk
      rw [if_pos rfl, haccounts]
      exact h.accounts_get hw accountId info
    · rw [if_neg hk]

-- The password alone has changed.
theorem update_fan (h : Kept c s) (hw : (id, w) ∈ s.wallets) (fan : RawKey) :
    Kept c (s.set id { w with fan }) := by
  obtain ⟨key, seed, hkept⟩ := h.wallets _ hw
  have hget := (h.infos id w.toWalletInfo).mpr ⟨w, hw, rfl⟩
  have hkept' : WalletKept c key seed { w with fan } := hkept.of_eq rfl rfl rfl rfl rfl
  have hupdate := h.update_info hw ⟨key, seed, hkept'⟩ rfl
  dsimp only at hupdate
  rwa [Table.put_of_get hget] at hupdate

-- The wallet has one more account.
theorem update_append (h : Kept c s) (hw : (id, w) ∈ s.wallets)
    (hw' : WalletKept c key seed w') {accountId : Nat} {info : WalletAccountInfo}
    (haccounts : w'.accounts = w.accounts ++ [(accountId, info)]) {infos : Table Nat WalletInfo}
    (hinfos : ∀ k, infos.get k = if k = id then some w'.toWalletInfo else s.tables.infos.get k) :
    Kept c { s.set id w' with
      tables := { s.tables with
        infos
        accountInfos := s.tables.accountInfos.put (id, accountId) info } } := by
  refine h.update hw ⟨key, seed, hw'⟩ hinfos (fun k a other => ?_) rfl
  dsimp only
  rw [Table.get_put]
  by_cases hk : k = id
  · subst hk
    rw [if_pos rfl]
    by_cases ha : a = accountId
    · subst ha
      rw [if_pos rfl, Option.some_inj]
      have hmem : (a, info) ∈ w'.accounts := by simp [haccounts]
      have hnodup : (w'.accounts.map Prod.fst).Nodup := hw'.ids.imp fun hlt => Nat.ne_of_lt hlt
      constructor
      · rintro rfl
        exact hmem
      · exact fun hother => (Prod.mk.inj (List.inj_on_of_nodup_map hnodup hmem hother rfl)).2
    · rw [if_neg (by simp [ha]), h.accounts_get hw, haccounts]
      simp [ha]
  · rw [if_neg (by simp [hk]), if_neg hk]

end Kept

section Store

variable {t : WalletTables}

theorem storeInfo_ok (w : Wallet) (t : WalletTables) (hid : id ≠ 0) :
    w.storeInfo false t id = .ok { t with infos := t.infos.put id w.toWalletInfo } := by
  rw [Wallet.storeInfo, WalletTables.walletInfoPut, if_neg (by simp [hid])]

theorem storeAccount_ok (t : WalletTables) (hid : id ≠ 0) {accountId : Nat}
    {info : WalletAccountInfo} (hnodup : (w.accounts.map Prod.fst).Nodup)
    (hmem : (accountId, info) ∈ w.accounts) (haccount : accountId ≠ 0) :
    w.storeAccount false t id accountId =
      .ok { t with accountInfos := t.accountInfos.put (id, accountId) info } := by
  have hfind : w.accounts.find? (fun i => i.1 = accountId) = some (accountId, info) := by
    cases hfound : w.accounts.find? fun i => i.1 = accountId with
    | none =>
        rw [List.find?_eq_none] at hfound
        exact absurd (hfound _ hmem) (by simp)
    | some i =>
        have hi : i.1 = accountId := by simpa using List.find?_some hfound
        rw [List.inj_on_of_nodup_map hnodup (List.mem_of_find?_eq_some hfound) hmem hi]
  rw [Wallet.storeAccount, hfind]
  dsimp only
  rw [WalletTables.walletAccountInfoPut, if_neg (by simp [hid, haccount])]

-- A new wallet is written with its one account.
theorem store_ok {fails : Nat → Bool} {t t' : WalletTables} {accountId : Nat}
    {info : WalletAccountInfo} (haccounts : w.accounts = [(accountId, info)])
    (h : w.store fails t id = .ok t') : t' = { t with
      infos := t.infos.put id w.toWalletInfo
      accountInfos := t.accountInfos.put (id, accountId) info } := by
  unfold Wallet.store Wallet.storeInfo WalletTables.walletInfoPut at h
  by_cases hinfo : id = 0 ∨ fails 0 = true
  · rw [if_pos hinfo] at h
    cases h
  · rw [if_neg hinfo, haccounts] at h
    dsimp only [Wallet.storeAccounts, WalletTables.walletAccountInfoPut] at h
    by_cases haccount : (id = 0 ∨ accountId = 0) ∨ fails 1 = true
    · rw [if_pos haccount] at h
      cases h
    · rw [if_neg haccount] at h
      exact (Except.ok.inj h).symm

theorem store_done (t : WalletTables) (hid : id ≠ 0) {accountId : Nat} {info : WalletAccountInfo}
    (haccounts : w.accounts = [(accountId, info)]) (haccount : accountId ≠ 0) :
    ∃ t', w.store (fun _ => false) t id = .ok t' := by
  refine ⟨{ t with
    infos := t.infos.put id w.toWalletInfo
    accountInfos := t.accountInfos.put (id, accountId) info }, ?_⟩
  rw [Wallet.store, storeInfo_ok w t hid, haccounts]
  dsimp only [Wallet.storeAccounts, WalletTables.walletAccountInfoPut]
  rw [if_neg (by simp [hid, haccount])]

end Store

-- One wallet more, under an id above all others.
theorem Stored.add (h : Stored c s) (hw : WalletKept c key seed w) (hid : 1 ≤ id ∧ id < 2 ^ 32)
    (hlarger : ∀ k ∈ s.wallets.map Prod.fst, k < id) {accountId : Nat} {info : WalletAccountInfo}
    (haccounts : w.accounts = [(accountId, info)]) : Stored c { s with
      tables := { s.tables with
        infos := s.tables.infos.put id w.toWalletInfo
        accountInfos := s.tables.accountInfos.put (id, accountId) info }
      wallets := s.wallets ++ [(id, w)] } := by
  have hnew : ∀ v, (id, v) ∉ s.wallets := fun v hv =>
    Nat.lt_irrefl _ (hlarger id (List.mem_map.mpr ⟨_, hv, rfl⟩))
  constructor
  case ids =>
    rw [List.map_append, List.pairwise_append]
    refine ⟨h.ids, List.pairwise_singleton _ _, fun k hk next hnext => ?_⟩
    rw [List.mem_singleton.mp hnext]
    exact hlarger k hk
  case idsIn =>
    rw [List.map_append]
    intro k hk
    rcases List.mem_append.mp hk with hold | hlast
    · exact h.idsIn k hold
    · rw [List.mem_singleton.mp hlast]
      exact hid
  case wallets =>
    intro i hi
    rcases List.mem_append.mp hi with hold | hlast
    · exact h.wallets i hold
    · rw [List.mem_singleton.mp hlast]
      exact ⟨key, seed, hw⟩
  case infos =>
    intro k other
    dsimp only
    rw [Table.get_put]
    by_cases hk : k = id
    · subst hk
      simp [hnew]
    · rw [if_neg hk, h.infos]
      simp [hk]
  case accountInfos =>
    intro k a other
    dsimp only
    rw [Table.get_put]
    by_cases hk : k = id
    · subst hk
      have hnone : s.tables.accountInfos.get (k, a) ≠ some other := fun hget =>
        have ⟨v, hv, _⟩ := (h.accountInfos k a other).mp hget
        hnew v hv
      by_cases ha : a = accountId
      · subst ha
        simp [hnew, haccounts, eq_comm]
      · simp [hnew, haccounts, ha, hnone]
    · rw [if_neg (by simp [hk]), h.accountInfos]
      simp [hk]

-- What an operation leaves as it was: the store, and the memory but for the passwords.
structure Unchanged (s s' : Wallets) : Prop where
  tables : s'.tables = s.tables
  wallets : s'.reset = s.reset
  selected : s'.selectedWalletId = s.selectedWalletId

inductive KeyAction where
  | createWallet (writes : Writes) (salt : Uint256) (key seed : RawKey)
  | importWallet (writes : Writes) (salt : Uint256) (key seed : RawKey)
  | createAccount (writes : Writes)
  | importAccount (writes : Writes) (privateKey : RawKey)
  | changePassword (writes : Writes) (password : String)
  | enterPassword (password : String)
  | lockWallet (walletId : Nat)
  | selectAccount (writes : Writes) (accountId : Nat)
  | selectWallet (writes : Writes) (walletId : Nat)

-- An operation on the selected wallet gets to it.
def Wallets.Opens (s : Wallets) (writes : Writes) (w : Wallet) : Prop :=
  writes.refused = false ∧ s.wallet_ s.selectedWalletId = some w

-- Whenever the wallet in memory is about to change, what follows will not go wrong: the writes do
-- not fail, there is an account id left, and the next derived account has not been imported.
def KeyAction.Safe (c : Crypto) (s : Wallets) : KeyAction → Prop
  | .createAccount writes => ∀ w, s.Opens writes w → w.validPassword_ c = true →
      writes.fails 0 = false ∧ writes.fails 1 = false ∧ w.newAccountId_ < 2 ^ 32 - 1 ∧
        c.generatePublicKey (c.derive (w.seed_ c) w.index) ∉ publicKeys w
  | .importAccount writes privateKey => ∀ w, s.Opens writes w → w.validPassword_ c = true →
      c.generatePublicKey privateKey ∉ publicKeys w →
      writes.fails 0 = false ∧ w.newAccountId_ < 2 ^ 32 - 1
  | .changePassword writes _ => ∀ w, s.Opens writes w → w.validPassword_ c = true →
      writes.fails 0 = false
  | .selectAccount writes accountId => ∀ w, s.Opens writes w → accountId ≠ w.selectedAccountId →
      accountId ∈ w.accounts.map Prod.fst → writes.fails 0 = false
  | _ => True

-- The state is kept, and unless the operation is done it is unchanged as well.
structure Kept.Step (c : Crypto) (s : Wallets) (result : Wallets × Answer) : Prop where
  kept : Kept c result.1
  unchanged : result.2 ≠ .done → Unchanged s result.1

namespace Kept

theorem refused (h : Kept c s) (answer : Answer) : Kept.Step c s (s, answer) :=
  ⟨h, fun _ => ⟨rfl, rfl, rfl⟩⟩

theorem Step.done (h : Kept c s') : Kept.Step c s (s', .done) := ⟨h, fun hne => absurd rfl hne⟩

theorem create_accounts (salt : Uint256) (key seed : RawKey) :
    ∃ info, (Wallet.create c salt key seed).accounts = [(1, info)] := ⟨_, rfl⟩

theorem addWallet (h : Kept c s) (hw : WalletKept c key seed w) {info : WalletAccountInfo}
    (haccounts : w.accounts = [(1, info)]) (writes : Writes) :
    Kept.Step c s (s.addWallet writes w) := by
  unfold Wallets.addWallet
  dsimp only
  by_cases hzero : s.newWalletId_ = 0
  · rw [if_pos hzero]
    exact h.refused _
  · rw [if_neg hzero]
    cases hstore : w.store writes.fails s.tables s.newWalletId_ with
    | error code => exact h.refused _
    | ok tables =>
        obtain ⟨hlt, hlarger⟩ := newId_spec h.ids h.idsIn hzero
        refine Step.done ⟨?_, ?_, ?_⟩
        · rw [store_ok haccounts hstore]
          exact h.toStored.add hw ⟨Nat.pos_of_ne_zero hzero, hlt⟩ hlarger haccounts
        · rw [store_ok haccounts hstore]
          exact h.selected
        · rw [List.map_append]
          exact List.mem_append_left _ h.selectedIn

theorem initial (hsound : c.Sound) (salt : Uint256) (key seed : RawKey) :
    Kept c (Wallets.initial c salt key seed) := by
  have hw := WalletKept.create hsound salt key seed
  obtain ⟨info, haccounts⟩ := create_accounts (c := c) salt key seed
  have hempty : Stored c ⟨⟨.empty, .empty, none⟩, [], 0⟩ := by
    refine ⟨List.Pairwise.nil, List.forall_mem_nil _, List.forall_mem_nil _, fun id info => ?_,
      fun id accountId info => ?_⟩
    all_goals simp
  have hadd := hempty.add hw (show 1 ≤ 1 ∧ 1 < 2 ^ 32 by decide) (List.forall_mem_nil _) haccounts
  have hone : (1 : Nat) ≠ 0 := by decide
  obtain ⟨tables, hstore⟩ := store_done ⟨.empty, .empty, none⟩ hone haccounts hone
  rw [Wallets.initial, hstore, store_ok haccounts hstore]
  exact ⟨⟨hadd.ids, hadd.idsIn, hadd.wallets, hadd.infos, hadd.accountInfos⟩, rfl,
    List.mem_singleton_self 1⟩

theorem createWallet (h : Kept c s) (hsound : c.Sound) (writes : Writes) (salt : Uint256)
    (key seed : RawKey) : Kept.Step c s (s.createWallet c writes salt key seed) := by
  obtain ⟨info, haccounts⟩ := create_accounts (c := c) salt key seed
  unfold Wallets.createWallet
  by_cases hrefused : writes.refused = true
  · rw [if_pos hrefused]
    exact h.refused _
  · rw [if_neg hrefused]
    exact h.addWallet (.create hsound salt key seed) haccounts writes

theorem importWallet (h : Kept c s) (hsound : c.Sound) (writes : Writes) (salt : Uint256)
    (key seed : RawKey) : Kept.Step c s (s.importWallet c writes salt key seed) := by
  obtain ⟨info, haccounts⟩ := create_accounts (c := c) salt key seed
  unfold Wallets.importWallet
  dsimp only
  by_cases hrefused : writes.refused = true
  · rw [if_pos hrefused]
    exact h.refused _
  · rw [if_neg hrefused]
    split
    · exact h.refused _
    · exact h.addWallet (.create hsound salt key seed) haccounts writes

theorem newAccountId_ne_zero (h : WalletKept c key seed w) : w.newAccountId_ ≠ 0 := by
  have := newId_pos h.ids h.idsIn
  unfold Wallet.newAccountId_
  omega

theorem wallet_kept (h : Kept c s) (hget : s.wallet_ id = some w) :
    ∃ key seed, WalletKept c key seed w :=
  h.wallets _ (wallet_mem hget)

theorem importAccount (h : Kept c s) (hsound : c.Sound) {writes : Writes} {privateKey : RawKey}
    (hsafe : (KeyAction.importAccount writes privateKey).Safe c s) :
    Kept.Step c s (s.importAccount c writes privateKey) := by
  unfold Wallets.importAccount
  by_cases hrefused : writes.refused = true
  · rw [if_pos hrefused]
    exact h.refused _
  rw [if_neg hrefused]
  cases hget : s.wallet_ s.selectedWalletId with
  | none => exact h.refused _
  | some w =>
      have hw := wallet_mem hget
      obtain ⟨key, seed, hkept⟩ := h.wallet_kept hget
      dsimp only
      unfold Wallet.importAccount
      by_cases hlocked : w.validPassword_ c = false
      · rw [if_pos hlocked]
        exact h.refused _
      rw [if_neg hlocked]
      by_cases hexists : w.accounts.any (fun i => i.2.publicKey = c.generatePublicKey privateKey)
      · rw [if_pos hexists]
        exact h.refused _
      rw [if_neg hexists]
      have hvalid : w.validPassword_ c = true := by simpa using hlocked
      have hfresh : c.generatePublicKey privateKey ∉ publicKeys w := by
        simpa [publicKeys] using hexists
      obtain ⟨hwrite, hroom⟩ := hsafe w ⟨by simpa using hrefused, hget⟩ hvalid hfresh
      have hafter := hkept.importAccount (hkept.key_eq hsound hvalid) hroom hfresh
      have hstore := storeAccount_ok s.tables (h.id_ne_zero hw)
        (hafter.ids.imp fun hlt => Nat.ne_of_lt hlt)
        (List.mem_append_right _ (List.mem_singleton_self _)) (newAccountId_ne_zero hkept)
      dsimp only [Wallets.set, Wallet.emplace] at hstore ⊢
      rw [hwrite, hstore]
      refine Step.done (h.update_append hw hafter rfl fun k => ?_)
      by_cases hk : k = s.selectedWalletId
      · rw [if_pos hk, hk]
        exact (h.infos _ _).mpr ⟨w, hw, rfl⟩
      · rw [if_neg hk]

theorem createAccount (h : Kept c s) (hsound : c.Sound) {writes : Writes}
    (hsafe : (KeyAction.createAccount writes).Safe c s) :
    Kept.Step c s (s.createAccount c writes) := by
  unfold Wallets.createAccount
  by_cases hrefused : writes.refused = true
  · rw [if_pos hrefused]
    exact h.refused _
  rw [if_neg hrefused]
  cases hget : s.wallet_ s.selectedWalletId with
  | none => exact h.refused _
  | some w =>
      have hw := wallet_mem hget
      obtain ⟨key, seed, hkept⟩ := h.wallet_kept hget
      dsimp only
      unfold Wallet.createAccount
      by_cases hlocked : w.validPassword_ c = false
      · rw [if_pos hlocked]
        exact h.refused _
      rw [if_neg hlocked]
      have hvalid : w.validPassword_ c = true := by simpa using hlocked
      obtain ⟨hfirst, hsecond, hroom, hfresh⟩ := hsafe w ⟨by simpa using hrefused, hget⟩ hvalid
      have hafter := hkept.createAccount hsound (hkept.key_eq hsound hvalid) hroom hfresh
      have hid := h.id_ne_zero hw
      have hstore := storeAccount_ok s.tables hid (hafter.ids.imp fun hlt => Nat.ne_of_lt hlt)
        (List.mem_append_right _ (List.mem_singleton_self _))
        (show w.newAccountId_ ≠ 0 from newAccountId_ne_zero hkept)
      dsimp only [Wallets.set, Wallet.createAccount_, Wallet.emplace] at hstore ⊢
      rw [hfirst, hstore]
      dsimp only
      rw [hsecond, storeInfo_ok _ _ hid]
      exact Step.done (h.update_append hw hafter rfl fun k => Table.get_put _ _ _ _)

theorem changePassword (h : Kept c s) {writes : Writes} {password : String}
    (hsafe : (KeyAction.changePassword writes password).Safe c s) :
    Kept.Step c s (s.changePassword c writes password) := by
  unfold Wallets.changePassword
  by_cases hrefused : writes.refused = true
  · rw [if_pos hrefused]
    exact h.refused _
  rw [if_neg hrefused]
  cases hget : s.wallet_ s.selectedWalletId with
  | none => exact h.refused _
  | some w =>
      have hw := wallet_mem hget
      obtain ⟨key, seed, hkept⟩ := h.wallet_kept hget
      dsimp only
      unfold Wallet.changePassword
      by_cases hlocked : w.validPassword_ c = false
      · rw [if_pos hlocked]
        exact h.refused _
      rw [if_neg hlocked]
      have hwrite := hsafe w ⟨by simpa using hrefused, hget⟩ (by simpa using hlocked)
      dsimp only [Wallets.set]
      rw [hwrite, storeInfo_ok _ _ (h.id_ne_zero hw)]
      exact Step.done (h.update_info hw ⟨key, seed, hkept.of_eq rfl rfl rfl rfl rfl⟩ rfl)

theorem selectAccount (h : Kept c s) {writes : Writes} {accountId : Nat}
    (hsafe : (KeyAction.selectAccount writes accountId).Safe c s) :
    Kept.Step c s (s.selectAccount writes accountId) := by
  unfold Wallets.selectAccount
  by_cases hrefused : writes.refused = true
  · rw [if_pos hrefused]
    exact h.refused _
  rw [if_neg hrefused]
  cases hget : s.wallet_ s.selectedWalletId with
  | none => exact h.refused _
  | some w =>
      have hw := wallet_mem hget
      obtain ⟨key, seed, hkept⟩ := h.wallet_kept hget
      dsimp only
      unfold Wallet.selectAccount
      by_cases hsame : accountId = w.selectedAccountId
      · rw [if_pos hsame]
        exact h.refused _
      rw [if_neg hsame]
      by_cases hknown : w.accounts.any (fun i => accountId = i.1)
      · rw [if_pos hknown]
        have hmem : accountId ∈ w.accounts.map Prod.fst := by
          obtain ⟨i, hi, heq⟩ := List.any_eq_true.mp hknown
          exact List.mem_map.mpr ⟨i, hi, (of_decide_eq_true heq).symm⟩
        have hwrite := hsafe w ⟨by simpa using hrefused, hget⟩ hsame hmem
        dsimp only [Wallets.set]
        rw [hwrite, storeInfo_ok _ _ (h.id_ne_zero hw)]
        exact Step.done (h.update_info hw ⟨key, seed, hkept.of_eq rfl rfl rfl rfl rfl⟩ rfl)
      · rw [if_neg hknown]
        exact h.refused _

theorem selectWallet (h : Kept c s) (writes : Writes) (walletId : Nat) :
    Kept.Step c s (s.selectWallet writes walletId) := by
  unfold Wallets.selectWallet WalletTables.selectedWalletIdPut
  by_cases hrefused : writes.refused = true
  · rw [if_pos hrefused]
    exact h.refused _
  rw [if_neg hrefused]
  by_cases hsame : walletId = s.selectedWalletId
  · rw [if_pos hsame]
    exact h.refused _
  rw [if_neg hsame]
  by_cases hknown : s.wallets.any (fun i => walletId = i.1)
  · rw [if_pos hknown]
    by_cases hfails : writes.fails 0 = true
    · rw [if_pos hfails]
      exact h.refused _
    · rw [if_neg hfails]
      obtain ⟨i, hi, heq⟩ := List.any_eq_true.mp hknown
      refine Step.done ⟨⟨h.ids, h.idsIn, h.wallets, h.infos, h.accountInfos⟩, rfl, ?_⟩
      exact List.mem_map.mpr ⟨i, hi, (of_decide_eq_true heq).symm⟩
  · rw [if_neg hknown]
    exact h.refused _

-- A change of the password in memory is none of what the wallet consists of.
theorem reset_fan (h : Kept c s) (hw : (id, w) ∈ s.wallets) (fan : RawKey) :
    (s.set id { w with fan }).reset = s.reset := by
  unfold Wallets.reset Wallets.set
  rw [List.map_map]
  apply List.map_congr_left
  rintro ⟨k, v⟩ hv
  dsimp only [Function.comp_apply]
  by_cases hk : k = id
  · subst hk
    rw [if_pos rfl, h.id_unique hv hw]
    rfl
  · rw [if_neg hk]

theorem set_fan (h : Kept c s) (hw : (id, w) ∈ s.wallets) (fan : RawKey) (answer : Answer) :
    Kept.Step c s (s.set id { w with fan }, answer) :=
  ⟨h.update_fan hw fan, fun _ => ⟨rfl, h.reset_fan hw fan, rfl⟩⟩

theorem enterPassword (h : Kept c s) (password : String) :
    Kept.Step c s (s.enterPassword c password) := by
  unfold Wallets.enterPassword
  cases hget : s.wallet_ s.selectedWalletId with
  | none => exact h.refused _
  | some w => exact h.set_fan (wallet_mem hget) _ _

theorem lockWallet (h : Kept c s) (walletId : Nat) : Kept.Step c s (s.lockWallet c walletId) := by
  unfold Wallets.lockWallet
  cases hget : s.wallet_ walletId with
  | none => exact h.refused _
  | some w =>
      dsimp only
      unfold Wallet.lock
      split
      · exact h.set_fan (wallet_mem hget) w.fan _
      · exact h.set_fan (wallet_mem hget) 0 _

end Kept

-- One operation with its answer.
def Wallets.take (c : Crypto) (s : Wallets) : KeyAction → Wallets × Answer
  | .createWallet writes salt key seed => s.createWallet c writes salt key seed
  | .importWallet writes salt key seed => s.importWallet c writes salt key seed
  | .createAccount writes => s.createAccount c writes
  | .importAccount writes privateKey => s.importAccount c writes privateKey
  | .changePassword writes password => s.changePassword c writes password
  | .enterPassword password => s.enterPassword c password
  | .lockWallet walletId => s.lockWallet c walletId
  | .selectAccount writes accountId => s.selectAccount writes accountId
  | .selectWallet writes walletId => s.selectWallet writes walletId

-- From the first start on.
def keyMachine (c : Crypto) : Machine Wallets KeyAction where
  start s := ∃ salt key seed, s = .initial c salt key seed
  fits _ _ := True
  step s action := (s.take c action).1

theorem Kept.take (h : Kept c s) (hsound : c.Sound) {action : KeyAction}
    (hsafe : action.Safe c s) : Kept.Step c s (s.take c action) := by
  cases action with
  | createWallet writes salt key seed => exact h.createWallet hsound writes salt key seed
  | importWallet writes salt key seed => exact h.importWallet hsound writes salt key seed
  | createAccount writes => exact h.createAccount hsound hsafe
  | importAccount writes privateKey => exact h.importAccount hsound hsafe
  | changePassword writes password => exact h.changePassword hsafe
  | enterPassword password => exact h.enterPassword password
  | lockWallet walletId => exact h.lockWallet walletId
  | selectAccount writes accountId => exact h.selectAccount hsafe
  | selectWallet writes walletId => exact h.selectWallet writes walletId

theorem run_kept (hsound : c.Sound) {history : History Wallets KeyAction}
    (hrun : (keyMachine c).Run (fun _ _ => True) history s)
    (hsafe : ∀ taken ∈ history, taken.2.Safe c taken.1) :
    Kept c s ∧ ∀ taken ∈ history, Kept.Step c taken.1 (taken.1.take c taken.2) := by
  revert hsafe
  refine hrun.invariant (P := fun history s => (∀ taken ∈ history, taken.2.Safe c taken.1) →
    Kept c s ∧ ∀ taken ∈ history, Kept.Step c taken.1 (taken.1.take c taken.2)) ?_ ?_
  · rintro s ⟨salt, key, seed, rfl⟩ -
    exact ⟨.initial hsound salt key seed, List.forall_mem_nil _⟩
  · intro history s action _ _ _ ih hsafe
    rw [List.forall_mem_cons] at hsafe
    obtain ⟨hkept, hhistory⟩ := ih hsafe.2
    have hstep := hkept.take hsound hsafe.1
    exact ⟨hstep.kept, List.forall_mem_cons.mpr ⟨hstep, hhistory⟩⟩

-- What is expected of a wallet.
structure WalletSound (c : Crypto) (w : Wallet) : Prop where
  ids : (w.accounts.map Prod.fst).Nodup
  publicKeys : (publicKeys w).Nodup
  decrypts : w.validPassword_ c = true → ∀ i ∈ w.accounts,
    c.generatePublicKey (w.decrypt_ c i.2.privateKey) = i.2.publicKey
  derives : w.validPassword_ c = true → ∀ i ∈ w.accounts, i.2.index ≠ ADHOC_INDEX →
    w.decrypt_ c i.2.privateKey = c.derive (w.seed_ c) i.2.index
  indexes : derivedIndexes w = List.range w.index.toNat

theorem WalletKept.walletSound (h : WalletKept c key seed w) (hsound : c.Sound) :
    WalletSound c w where
  ids := h.ids.imp fun hlt => Nat.ne_of_lt hlt
  publicKeys := h.apart
  decrypts hvalid i hi := by
    obtain ⟨privateKey, hencrypted, hpublic, -⟩ := h.keys i hi
    rw [Wallet.decrypt_, h.key_eq hsound hvalid, hencrypted, hsound.decrypt_encrypt, hpublic]
  derives hvalid i hi hne := by
    obtain ⟨privateKey, hencrypted, -, hderived⟩ := h.keys i hi
    have hkey := h.key_eq hsound hvalid
    rw [Wallet.decrypt_, hkey, hencrypted, hsound.decrypt_encrypt, hderived hne,
      h.seed_eq hsound hkey]
  indexes := h.derived

-- The three parts of what a run of safe steps keeps.
def KeyStoreSound (c : Crypto) (history : History Wallets KeyAction) (s : Wallets) : Prop :=
  (∀ i ∈ s.wallets, WalletSound c i.2) ∧ Reloads s ∧
    ∀ taken ∈ history, (taken.1.take c taken.2).2 ≠ .done →
      Unchanged taken.1 (taken.1.take c taken.2).1

theorem keyStore_sound (hsound : c.Sound) {history : History Wallets KeyAction}
    (hrun : (keyMachine c).Run (fun _ _ => True) history s)
    (hsafe : ∀ taken ∈ history, taken.2.Safe c taken.1) : KeyStoreSound c history s := by
  obtain ⟨hkept, hhistory⟩ := run_kept hsound hrun hsafe
  refine ⟨fun i hi => ?_, hkept.reloads, fun taken htaken => (hhistory taken htaken).unchanged⟩
  obtain ⟨key, seed, hwallet⟩ := hkept.wallets i hi
  exact hwallet.walletSound hsound

-- A cipher and keys for the samples.
section Samples

def xorCrypto : Crypto where
  encrypt cleartext key _ := cleartext ^^^ key
  decrypt ciphertext key _ := ciphertext ^^^ key
  deriveKey password _ := BitVec.ofNat 256 password.length
  derive seed index := seed + BitVec.ofNat 256 index.toNat
  generatePublicKey privateKey := privateKey

theorem xorCrypto_sound : xorCrypto.Sound where
  decrypt_encrypt cleartext key iv := by
    change (cleartext ^^^ key) ^^^ key = cleartext
    rw [BitVec.xor_assoc, BitVec.xor_self, BitVec.xor_zero]
  check_injective iv key key' h := by
    change 0#256 ^^^ key = 0#256 ^^^ key' at h
    rwa [BitVec.zero_xor, BitVec.zero_xor] at h
  derive_injective seed index index' h := by
    change seed + BitVec.ofNat 256 index.toNat = seed + BitVec.ofNat 256 index'.toNat at h
    have heq := congrArg BitVec.toNat (BitVec.add_right_inj _ |>.mp h)
    have hindex := index.toNat_lt
    have hindex' := index'.toNat_lt
    rw [BitVec.toNat_ofNat, BitVec.toNat_ofNat] at heq
    apply UInt32.toNat_inj.mp
    omega
  publicKey_injective := Function.injective_id

def sampleWallets : Wallets := .initial xorCrypto 0 5 7

def keyRun (actions : List KeyAction) : History Wallets KeyAction × Wallets :=
  (keyMachine xorCrypto).exec sampleWallets actions

theorem keyRun_run (actions : List KeyAction) :
    (keyMachine xorCrypto).Run (fun _ _ => True) (keyRun actions).1 (keyRun actions).2 :=
  Machine.exec_run ⟨0, 5, 7, rfl⟩ (fun _ _ _ => trivial) fun _ _ => trivial

def failing : Writes := ⟨false, fun _ => true⟩

def succeeding : Writes := ⟨false, fun _ => false⟩

-- Accounts are created and imported, the password is changed, the wallet is locked and opened
-- again, and a second wallet comes. In between come requests that are refused: the wallet is
-- locked, the password is wrong, the store does not begin or fails, the account is there already.
def keySteps : List KeyAction :=
  [.createAccount succeeding, .importAccount succeeding 100, .changePassword succeeding "secret",
    .lockWallet 1, .createAccount succeeding, .enterPassword "wrong", .enterPassword "secret",
    .createAccount ⟨true, fun _ => false⟩, .createAccount succeeding, .importAccount succeeding 100,
    .createWallet failing 1 6 1000, .createWallet succeeding 1 6 1000, .selectWallet succeeding 2,
    .createAccount succeeding, .selectAccount succeeding 2]

-- Enough for a step to be safe.
def KeyAction.careful (s : Wallets) : KeyAction → Bool
  | .createAccount writes => writes.refused || (s.wallet_ s.selectedWalletId).all fun w =>
      decide (writes.fails 0 = false ∧ writes.fails 1 = false ∧ w.newAccountId_ < 2 ^ 32 - 1 ∧
        xorCrypto.generatePublicKey (xorCrypto.derive (w.seed_ xorCrypto) w.index) ∉ publicKeys w)
  | .importAccount writes _ => (s.wallet_ s.selectedWalletId).all fun w =>
      decide (writes.fails 0 = false ∧ w.newAccountId_ < 2 ^ 32 - 1)
  | .changePassword writes _ => !writes.fails 0
  | .selectAccount writes _ => !writes.fails 0
  | _ => true

theorem KeyAction.safe_of_careful {action : KeyAction} (h : action.careful s = true) :
    action.Safe xorCrypto s := by
  cases action with
  | createAccount writes =>
      rintro w ⟨hgoes, hget⟩ -
      rw [careful, hgoes, hget, Bool.false_or, Option.all_some, decide_eq_true_iff] at h
      exact h
  | importAccount writes privateKey =>
      rintro w ⟨-, hget⟩ - -
      rw [careful, hget, Option.all_some, decide_eq_true_iff] at h
      exact h
  | changePassword writes password => exact fun _ _ _ => (Bool.not_eq_true' _).mp h
  | selectAccount writes accountId => exact fun _ _ _ _ => (Bool.not_eq_true' _).mp h
  | createWallet => trivial
  | importWallet => trivial
  | enterPassword => trivial
  | lockWallet => trivial
  | selectWallet => trivial

theorem keyStore_sound_sample :
    (keyRun keySteps).1.reverse.map (fun taken => (taken.1.take xorCrypto taken.2).2) =
        [.done, .done, .done, .done, .code .WALLET_LOCKED, .stopped, .done, .code .MDB_TXN_BEGIN,
          .done, .code .WALLET_ACCOUNT_EXISTS, .code .WALLET_INFO_PUT, .done, .done, .done, .done] ∧
      KeyStoreSound xorCrypto (keyRun keySteps).1 (keyRun keySteps).2 := by
  have hcareful : (keyRun keySteps).1.all (fun taken => taken.2.careful taken.1) = true := by
    decide
  refine ⟨by decide, keyStore_sound xorCrypto_sound (keyRun_run _) fun taken htaken => ?_⟩
  exact KeyAction.safe_of_careful (List.all_eq_true.mp hcareful taken htaken)

-- A write that fails leaves the account in memory alone. And an account that has been imported is
-- derived once more, with no write failing.
theorem keyStore_unsound : xorCrypto.Sound ∧
    ((keyMachine xorCrypto).Run (fun _ _ => True) (keyRun [.createAccount failing]).1
        (keyRun [.createAccount failing]).2 ∧
      ¬KeyStoreSound xorCrypto (keyRun [.createAccount failing]).1
        (keyRun [.createAccount failing]).2) ∧
    ((keyMachine xorCrypto).Run (fun _ _ => True)
        (keyRun [.importAccount succeeding 8, .createAccount succeeding]).1
        (keyRun [.importAccount succeeding 8, .createAccount succeeding]).2 ∧
      ¬KeyStoreSound xorCrypto (keyRun [.importAccount succeeding 8, .createAccount succeeding]).1
        (keyRun [.importAccount succeeding 8, .createAccount succeeding]).2) := by
  refine ⟨xorCrypto_sound, ⟨keyRun_run _, fun h => ?_⟩, keyRun_run _, fun h => ?_⟩
  · have hanswer : (sampleWallets.createAccount xorCrypto failing).2 ≠ .done := by decide
    have hunchanged := h.2.2 (sampleWallets, .createAccount failing) (List.mem_singleton_self _)
      hanswer
    have hne : (sampleWallets.createAccount xorCrypto failing).1.reset ≠ sampleWallets.reset := by
      decide
    exact hne hunchanged.wallets
  · have hwallet : ∃ w, (1, w) ∈ (keyRun [.importAccount succeeding 8,
        .createAccount succeeding]).2.wallets ∧ ¬(publicKeys w).Nodup := by
      refine ⟨((((Wallet.create xorCrypto 0 5 7).emplace xorCrypto ADHOC_INDEX 8).1).createAccount_
        xorCrypto).1, ?_⟩
      decide
    obtain ⟨w, hw, htwice⟩ := hwallet
    exact htwice (h.1 _ hw).publicKeys

end Samples

end Raicoin.KeyStore
