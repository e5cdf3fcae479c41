import Raicoin.Token.SwapBook

-- The places where the ids of tokens are, and what keeps an id from being at two of them.
namespace Raicoin

open Lib

structure IdBook where
  infos : Table (TokenKey × TokenValue) TokenIdInfo
  transfers : Table TokenIdTransferKey (Account × Nat)
  owners : Table AccountTokenId Nat
  receivables : Table TokenReceivableKey TokenReceivable
  orders : Table (Account × Nat) OrderInfo
  swaps : Table (Account × Nat) SwapInfo

def TokenLedger.idBook (l : TokenLedger) : IdBook where
  infos := l.tokenIds
  transfers := l.idTransfers
  owners := l.accountTokenIds
  receivables := l.receivables
  orders := l.orders
  swaps := l.swaps

-- An account has the id or can receive it, an order or a swap has locked it, or it has left the
-- ledger.
inductive IdPlace where
  | account (account : Account)
  | receivable (key : TokenReceivableKey)
  | order (key : Account × Nat)
  | swap (key : Account × Nat)
  | burned
  | unmapped
  | wrapped
  deriving DecidableEq

-- Where the info of an id says that it has gone.
def TokenIdInfo.Marks (info : TokenIdInfo) : IdPlace → Prop
  | .burned => info.burned = true
  | .unmapped => info.unmapped = true
  | .wrapped => info.wrapped = true
  | _ => False

def OrderInfo.OffersId (order : OrderInfo) (token : TokenKey) (id : TokenValue) : Prop :=
  order.finished = false ∧ order.typeOffer = .t721 ∧ order.tokenOffer = token ∧
    order.valueOffer = id

def OrderInfo.WantsId (order : OrderInfo) (token : TokenKey) : Prop :=
  order.typeWant = .t721 ∧ order.tokenWant = token

namespace IdBook

variable (b : IdBook)

def Holds (token : TokenKey) (id : TokenValue) : IdPlace → Prop
  | .account account => ∃ height, b.owners.get ⟨account, token, id⟩ = some height
  | .receivable key => key.token = token ∧ ∃ receivable, b.receivables.get key = some receivable ∧
    receivable.tokenType = .t721 ∧ receivable.value = id
  | .order key => ∃ order, b.orders.get key = some order ∧ order.OffersId token id
  | .swap key => ∃ swap order, b.swaps.get key = some swap ∧ swap.status = .take ∧
    b.orders.get (swap.maker, swap.orderHeight) = some order ∧ order.WantsId token ∧ swap.value = id
  | _ => False

def At (token : TokenKey) (id : TokenValue) (place : IdPlace) : Prop :=
  b.Holds token id place ∨ ∃ info, b.infos.get (token, id) = some info ∧ info.Marks place

-- The ledger knows the id, and it is nowhere for the time being.
structure Loose (token : TokenKey) (id : TokenValue) : Prop where
  known : ∃ info, b.infos.get (token, id) = some info
  away : ∀ place, ¬b.At token id place

structure Sound : Prop where
  alone : ∀ token id place other, b.At token id place → b.At token id other → place = other
  known : ∀ token id place, b.At token id place → ∃ info, b.infos.get (token, id) = some info
  -- the transfers of an id are numbered without a gap
  indexes : ∀ key, (∃ value, b.transfers.get key = some value) ↔
    ∃ info, b.infos.get (key.token, key.id) = some info ∧ key.index < info.transfers
  -- and the last one is that to its owner
  newest : ∀ account token id, b.Holds token id (.account account) → ∃ info index height,
    b.infos.get (token, id) = some info ∧ info.transfers = index + 1 ∧
      b.transfers.get ⟨token, id, index⟩ = some (account, height)
  ordered : ∀ key swap, b.swaps.get key = some swap →
    ∃ order, b.orders.get (swap.maker, swap.orderHeight) = some order

-- What is put and taken away one by one.
def informed (token : TokenKey) (id : TokenValue) (info : TokenIdInfo) : IdBook :=
  { b with infos := b.infos.put (token, id) info }

def logged (token : TokenKey) (id : TokenValue) (info : TokenIdInfo) (account : Account)
    (height : Nat) : IdBook :=
  { b with
    infos := b.infos.put (token, id) { info with transfers := info.transfers + 1 }
    transfers := b.transfers.put ⟨token, id, info.transfers⟩ (account, height) }

def gained (id : AccountTokenId) (height : Nat) : IdBook :=
  { b with owners := b.owners.put id height }

def lost (id : AccountTokenId) : IdBook := { b with owners := b.owners.del id }

def credited (key : TokenReceivableKey) (receivable : TokenReceivable) : IdBook :=
  { b with receivables := b.receivables.put key receivable }

def received (key : TokenReceivableKey) : IdBook :=
  { b with receivables := b.receivables.del key }

def orderPut (key : Account × Nat) (order : OrderInfo) : IdBook :=
  { b with orders := b.orders.put key order }

def swapPut (key : Account × Nat) (swap : SwapInfo) : IdBook :=
  { b with swaps := b.swaps.put key swap }

-- An id comes to an account or leaves it.
def moved (token : TokenKey) (id : TokenValue) (comes : Bool) (idInfo : Option TokenIdInfo)
    (account : Account) (height : Nat) : IdBook :=
  match idInfo with
  | none => b
  | some info =>
    (if comes then b.gained ⟨account, token, id⟩ height else b.lost ⟨account, token, id⟩).logged
      token id info account height

end IdBook

namespace IdBook

variable {b b' : IdBook} {token other : TokenKey} {id otherId : TokenValue} {place : IdPlace}
  {info old : TokenIdInfo} {account : Account} {height : Nat}

theorem Sound.empty : TokenLedger.empty.idBook.Sound := by
  have hnone (token : TokenKey) (id : TokenValue) (place : IdPlace) :
      ¬TokenLedger.empty.idBook.At token id place := by
    rintro (hholds | ⟨info, hget, -⟩)
    · cases place with
      | account account => exact nomatch hholds.choose_spec
      | receivable key => exact nomatch hholds.2.choose_spec.1
      | order key => exact nomatch hholds.choose_spec.1
      | swap key =>
          obtain ⟨swap, order, hget, -⟩ := hholds
          cases hget
      | _ => exact hholds
    · cases hget
  constructor
  · exact fun token id place other hat => absurd hat (hnone token id place)
  · exact fun token id place hat => absurd hat (hnone token id place)
  · intro key
    constructor
    · rintro ⟨value, hget⟩
      cases hget
    · rintro ⟨info, hget, -⟩
      cases hget
  · exact fun account token id hholds => absurd (.inl hholds) (hnone token id _)
  · intro key swap hget
    cases hget

-- A place that is given up: nothing is at a place that it was not at before.
theorem Sound.mono (h : b.Sound) (hinfos : b'.infos = b.infos)
    (htransfers : b'.transfers = b.transfers)
    (hholds : ∀ token id place, b'.Holds token id place → b.Holds token id place)
    (hordered : ∀ key swap, b'.swaps.get key = some swap →
      ∃ order, b'.orders.get (swap.maker, swap.orderHeight) = some order) : b'.Sound := by
  have hat (token : TokenKey) (id : TokenValue) (place : IdPlace) (h' : b'.At token id place) :
      b.At token id place := by
    unfold At at h'
    rw [hinfos] at h'
    exact h'.imp_left (hholds token id place)
  constructor
  · exact fun token id place other h₁ h₂ =>
      h.alone token id place other (hat _ _ _ h₁) (hat _ _ _ h₂)
  · rw [hinfos]
    exact fun token id place h' => h.known token id place (hat _ _ _ h')
  · rw [hinfos, htransfers]
    exact h.indexes
  · rw [hinfos, htransfers]
    exact fun account token id h' => h.newest account token id (hholds _ _ _ h')
  · exact hordered

-- A loose id is put somewhere, but not to an account: that would have to be logged.
theorem Sound.put (h : b.Sound) (hloose : b.Loose token id) (hinfos : b'.infos = b.infos)
    (htransfers : b'.transfers = b.transfers) (hplace : ∀ account, place ≠ .account account)
    (hholds : ∀ other otherId found, b'.Holds other otherId found →
      b.Holds other otherId found ∨ other = token ∧ otherId = id ∧ found = place)
    (hordered : ∀ key swap, b'.swaps.get key = some swap →
      ∃ order, b'.orders.get (swap.maker, swap.orderHeight) = some order) : b'.Sound := by
  have hat (other : TokenKey) (otherId : TokenValue) (found : IdPlace)
      (h' : b'.At other otherId found) :
      b.At other otherId found ∨ other = token ∧ otherId = id ∧ found = place := by
    unfold At at h'
    rw [hinfos] at h'
    rcases h' with hheld | hmarked
    · exact (hholds _ _ _ hheld).imp_left .inl
    · exact .inl (.inr hmarked)
  constructor
  · intro other otherId first second h₁ h₂
    rcases hat _ _ _ h₁ with h₁ | ⟨rfl, rfl, rfl⟩ <;> rcases hat _ _ _ h₂ with h₂ | ⟨h₃, h₄, rfl⟩
    · exact h.alone other otherId first second h₁ h₂
    · subst h₃ h₄
      exact absurd h₁ (hloose.away first)
    · exact absurd h₂ (hloose.away second)
    · rfl
  · rw [hinfos]
    intro other otherId found h'
    rcases hat _ _ _ h' with h' | ⟨rfl, rfl, -⟩
    · exact h.known other otherId found h'
    · exact hloose.known
  · rw [hinfos, htransfers]
    exact h.indexes
  · rw [hinfos, htransfers]
    intro account other otherId h'
    rcases hholds _ _ _ h' with h' | ⟨-, -, hfound⟩
    · exact h.newest account other otherId h'
    · exact absurd hfound.symm (hplace account)
  · exact hordered

-- An id that an account has is nowhere else.
theorem Sound.unmarked (h : b.Sound) (howned : b.Holds token id (.account account))
    (hget : b.infos.get (token, id) = some info) (place : IdPlace) : ¬info.Marks place := by
  intro hmarks
  obtain rfl := h.alone token id _ place (.inl howned) (.inr ⟨info, hget, hmarks⟩)
  exact hmarks

theorem key_ne (hne : ¬(other = token ∧ otherId = id)) : (other, otherId) ≠ (token, id) :=
  fun heq => hne (Prod.mk.inj heq)

-- A transfer of an id is logged. It is the last one: only its account may have the id.
theorem Sound.relogged (h : b.Sound) (hold : b.infos.get (token, id) = some old)
    (hcount : info.transfers = old.transfers)
    (hinfos : b'.infos = b.infos.put (token, id) { info with transfers := info.transfers + 1 })
    (htransfers : b'.transfers = b.transfers.put ⟨token, id, info.transfers⟩ (account, height))
    (hothers : ∀ other otherId place, ¬(other = token ∧ otherId = id) →
      b'.Holds other otherId place → b.Holds other otherId place)
    (hhere : ∀ place, b'.Holds token id place → place = .account account)
    (halone : ∀ place found, b'.Holds token id place ∨ info.Marks place →
      b'.Holds token id found ∨ info.Marks found → place = found)
    (hordered : ∀ key swap, b'.swaps.get key = some swap →
      ∃ order, b'.orders.get (swap.maker, swap.orderHeight) = some order) : b'.Sound := by
  have hat (other : TokenKey) (otherId : TokenValue) (hne : ¬(other = token ∧ otherId = id))
      (place : IdPlace) (h' : b'.At other otherId place) : b.At other otherId place := by
    unfold At at h'
    rw [hinfos, Table.get_put, if_neg (key_ne hne)] at h'
    exact h'.imp_left (hothers other otherId place hne)
  have hatHere (place : IdPlace) (h' : b'.At token id place) :
      b'.Holds token id place ∨ info.Marks place := by
    rcases h' with hholds | ⟨found, hget, hmarks⟩
    · exact .inl hholds
    · rw [hinfos, Table.get_put, if_pos rfl] at hget
      obtain rfl := Option.some.inj hget
      exact .inr hmarks
  constructor
  · intro other otherId place found h₁ h₂
    by_cases hsame : other = token ∧ otherId = id
    · obtain ⟨rfl, rfl⟩ := hsame
      exact halone place found (hatHere _ h₁) (hatHere _ h₂)
    · exact h.alone other otherId place found (hat _ _ hsame _ h₁) (hat _ _ hsame _ h₂)
  · intro other otherId place h'
    rw [hinfos, Table.get_put]
    by_cases hsame : other = token ∧ otherId = id
    · obtain ⟨rfl, rfl⟩ := hsame
      exact ⟨_, if_pos rfl⟩
    · rw [if_neg (key_ne hsame)]
      exact h.known other otherId place (hat _ _ hsame _ h')
  · intro key
    have hkeys := h.indexes key
    rw [hinfos, htransfers, Table.get_put, Table.get_put]
    by_cases hsame : key.token = token ∧ key.id = id
    · obtain ⟨htoken, hid⟩ := hsame
      rw [htoken, hid, hold] at hkeys
      rw [htoken, hid, if_pos rfl]
      by_cases hindex : key.index = info.transfers
      · have hkey : key = ⟨token, id, info.transfers⟩ := by rw [← htoken, ← hid, ← hindex]
        rw [if_pos hkey]
        exact iff_of_true ⟨_, rfl⟩ ⟨_, rfl, by dsimp only; omega⟩
      · have hkey : key ≠ ⟨token, id, info.transfers⟩ := fun heq => hindex (by rw [heq])
        rw [if_neg hkey, hkeys]
        constructor
        · rintro ⟨found, hfound, hlt⟩
          obtain rfl := Option.some.inj hfound
          exact ⟨_, rfl, by dsimp only; omega⟩
        · rintro ⟨found, hfound, hlt⟩
          obtain rfl := Option.some.inj hfound
          exact ⟨_, rfl, by dsimp only at hlt; omega⟩
    · have hkey : key ≠ ⟨token, id, info.transfers⟩ := by
        rintro rfl
        exact hsame ⟨rfl, rfl⟩
      rw [if_neg hkey, if_neg (key_ne hsame)]
      exact hkeys
  · intro owner other otherId h'
    rw [hinfos, htransfers, Table.get_put]
    by_cases hsame : other = token ∧ otherId = id
    · obtain ⟨rfl, rfl⟩ := hsame
      obtain rfl := IdPlace.account.inj (hhere _ h')
      exact ⟨_, info.transfers, height, if_pos rfl, rfl, by rw [Table.get_put, if_pos rfl]⟩
    · obtain ⟨found, index, height', hget, hindex, hlast⟩ :=
        h.newest owner other otherId (hothers _ _ _ hsame h')
      have hkey : (⟨other, otherId, index⟩ : TokenIdTransferKey) ≠ ⟨token, id, info.transfers⟩ := by
        intro heq
        obtain ⟨htoken, hid, -⟩ := TokenIdTransferKey.mk.inj heq
        exact hsame ⟨htoken, hid⟩
      rw [if_neg (key_ne hsame)]
      exact ⟨found, index, height', hget, hindex, by rw [Table.get_put, if_neg hkey]; exact hlast⟩
  · exact hordered

-- A loose id comes to an account.
theorem Sound.comes (h : b.Sound) (hloose : b.Loose token id)
    (hget : b.infos.get (token, id) = some info) :
    (b.moved token id true (some info) account height).Sound := by
  have hholds (other : TokenKey) (otherId : TokenValue) (place : IdPlace)
      (h' : (b.moved token id true (some info) account height).Holds other otherId place) :
      b.Holds other otherId place ∨ other = token ∧ otherId = id ∧ place = .account account := by
    cases place with
    | account owner =>
        obtain ⟨height', hput⟩ := h'
        change (b.owners.put ⟨account, token, id⟩ height).get ⟨owner, other, otherId⟩ = _ at hput
        rw [Table.get_put] at hput
        by_cases hkey : (⟨owner, other, otherId⟩ : AccountTokenId) = ⟨account, token, id⟩
        · obtain ⟨rfl, rfl, rfl⟩ := AccountTokenId.mk.inj hkey
          exact .inr ⟨rfl, rfl, rfl⟩
        · rw [if_neg hkey] at hput
          exact .inl ⟨height', hput⟩
    | _ => exact .inl h'
  have hhere (place : IdPlace)
      (h' : (b.moved token id true (some info) account height).Holds token id place) :
      place = .account account :=
    (hholds token id place h').elim (fun hheld => absurd (.inl hheld) (hloose.away place))
      fun hfound => hfound.2.2
  have hunmarked (place : IdPlace) : ¬info.Marks place := fun hmarks =>
    hloose.away place (.inr ⟨info, hget, hmarks⟩)
  refine h.relogged hget rfl rfl rfl ?_ hhere ?_ h.ordered
  · exact fun other otherId place hne h' => (hholds other otherId place h').resolve_right
      fun hfound => hne ⟨hfound.1, hfound.2.1⟩
  · intro place found hplace hfound
    rw [hhere place (hplace.resolve_right (hunmarked place)),
      hhere found (hfound.resolve_right (hunmarked found))]

-- An account gives up an id.
theorem holds_left {comesInfo : TokenIdInfo} {place : IdPlace}
    (h' : (b.moved token id false (some comesInfo) account height).Holds other otherId place) :
    b.Holds other otherId place ∧
      ¬(other = token ∧ otherId = id ∧ place = .account account) := by
  cases place with
  | account owner =>
      obtain ⟨height', hdel⟩ := h'
      change (b.owners.del ⟨account, token, id⟩).get ⟨owner, other, otherId⟩ = _ at hdel
      rw [Table.get_del] at hdel
      by_cases hkey : (⟨owner, other, otherId⟩ : AccountTokenId) = ⟨account, token, id⟩
      · rw [if_pos hkey] at hdel
        cases hdel
      · rw [if_neg hkey] at hdel
        refine ⟨⟨height', hdel⟩, ?_⟩
        rintro ⟨rfl, rfl, hplace⟩
        exact hkey (by rw [IdPlace.account.inj hplace])
  | _ => exact ⟨h', fun hfound => nomatch hfound.2.2⟩

theorem Sound.holds_nothing (h : b.Sound) (howned : b.Holds token id (.account account))
    (place : IdPlace) :
    ¬(b.moved token id false (some info) account height).Holds token id place := by
  intro h'
  obtain ⟨hheld, hne⟩ := holds_left h'
  exact hne ⟨rfl, rfl, h.alone token id place _ (.inl hheld) (.inl howned)⟩

theorem Sound.leaves (h : b.Sound) (howned : b.Holds token id (.account account))
    (hget : b.infos.get (token, id) = some old) (hcount : info.transfers = old.transfers)
    (hmarks : ∀ place found, info.Marks place → info.Marks found → place = found) :
    (b.moved token id false (some info) account height).Sound := by
  refine h.relogged hget hcount rfl rfl ?_ ?_ ?_ h.ordered
  · exact fun other otherId place _ h' => (holds_left h').1
  · exact fun place h' => absurd h' (h.holds_nothing howned place)
  · exact fun place found hplace hfound =>
      hmarks place found (hplace.resolve_left (h.holds_nothing howned place))
        (hfound.resolve_left (h.holds_nothing howned found))

-- One that is not marked as gone is loose afterwards.
theorem Sound.leaves_loose (h : b.Sound) (howned : b.Holds token id (.account account))
    (hget : b.infos.get (token, id) = some info) :
    (b.moved token id false (some info) account height).Loose token id := by
  have hinfos : (b.moved token id false (some info) account height).infos.get (token, id) =
      some { info with transfers := info.transfers + 1 } := by
    change (b.infos.put (token, id) { info with transfers := info.transfers + 1 }).get _ = _
    rw [Table.get_put, if_pos rfl]
  refine ⟨⟨_, hinfos⟩, fun place hat => ?_⟩
  rcases hat with hholds | ⟨found, hfound, hmarks⟩
  · exact h.holds_nothing howned place hholds
  · obtain rfl := Option.some.inj (hinfos.symm.trans hfound)
    exact h.unmarked howned hget place hmarks

-- An id that nothing holds is written, as one that has not gone: it is loose then.
theorem Sound.informed (h : b.Sound) (hheld : ∀ place, ¬b.Holds token id place)
    (hcount : info.transfers = ((b.infos.get (token, id)).map TokenIdInfo.transfers).getD 0)
    (hunmarked : ∀ place, ¬info.Marks place) :
    (b.informed token id info).Sound ∧ (b.informed token id info).Loose token id := by
  have hget (other : TokenKey) (otherId : TokenValue) :
      (b.informed token id info).infos.get (other, otherId) =
        if (other, otherId) = (token, id) then some info else b.infos.get (other, otherId) :=
    Table.get_put _ _ _ _
  have haway (place : IdPlace) : ¬(b.informed token id info).At token id place := by
    rintro (hholds | ⟨found, hfound, hmarks⟩)
    · exact hheld place hholds
    · rw [hget, if_pos rfl] at hfound
      obtain rfl := Option.some.inj hfound
      exact hunmarked place hmarks
  have hat (other : TokenKey) (otherId : TokenValue) (place : IdPlace)
      (h' : (b.informed token id info).At other otherId place) :
      ¬(other = token ∧ otherId = id) ∧ b.At other otherId place := by
    have hne : ¬(other = token ∧ otherId = id) := by
      rintro ⟨rfl, rfl⟩
      exact haway place h'
    refine ⟨hne, ?_⟩
    unfold At at h'
    rw [hget, if_neg (key_ne hne)] at h'
    exact h'
  refine ⟨⟨?_, ?_, ?_, ?_, h.ordered⟩, ⟨info, by rw [hget, if_pos rfl]⟩, haway⟩
  · exact fun other otherId place found h₁ h₂ =>
      h.alone other otherId place found (hat _ _ _ h₁).2 (hat _ _ _ h₂).2
  · intro other otherId place h'
    obtain ⟨hne, h'⟩ := hat _ _ _ h'
    rw [hget, if_neg (key_ne hne)]
    exact h.known other otherId place h'
  · intro key
    have hkeys := h.indexes key
    rw [hget]
    by_cases hsame : key.token = token ∧ key.id = id
    · obtain ⟨htoken, hid⟩ := hsame
      rw [htoken, hid] at hkeys ⊢
      rw [if_pos rfl]
      refine hkeys.trans ⟨?_, ?_⟩
      · rintro ⟨found, hfound, hlt⟩
        rw [hfound] at hcount
        have hsame : info.transfers = found.transfers := hcount
        exact ⟨info, rfl, by omega⟩
      · rintro ⟨found, hfound, hlt⟩
        obtain rfl := Option.some.inj hfound
        cases hold : b.infos.get (token, id) with
        | none =>
            rw [hold] at hcount
            exact absurd hlt (by rw [hcount]; exact Nat.not_lt_zero _)
        | some old =>
            rw [hold] at hcount
            have hsame : info.transfers = old.transfers := hcount
            exact ⟨old, rfl, by omega⟩
    · rw [if_neg (key_ne hsame)]
      exact hkeys
  · intro account other otherId h'
    have hne := (hat other otherId _ (.inl h')).1
    rw [hget, if_neg (key_ne hne)]
    exact h.newest account other otherId h'

-- What leaves the only place it was at is loose.
theorem Sound.gone (h : b.Sound) (hheld : b.Holds token id place) (hinfos : b'.infos = b.infos)
    (hholds : ∀ found, b'.Holds token id found → b.Holds token id found ∧ found ≠ place) :
    b'.Loose token id := by
  refine ⟨?_, fun found h' => ?_⟩
  · rw [hinfos]
    exact h.known token id place (.inl hheld)
  · unfold At at h'
    rw [hinfos] at h'
    rcases h' with h' | hmarked
    · obtain ⟨hheld', hne⟩ := hholds found h'
      exact hne (h.alone token id found place (.inl hheld') (.inl hheld))
    · obtain ⟨info, hget, hmarks⟩ := hmarked
      obtain rfl := h.alone token id found place (.inr ⟨info, hget, hmarks⟩) (.inl hheld)
      cases found <;> first | exact hmarks | exact hheld

section Receivables

variable {key : TokenReceivableKey} {receivable : TokenReceivable}

-- What is credited was loose, if it is an id. A receivable that is written over is lost.
theorem Sound.credited (h : b.Sound)
    (hloose : receivable.tokenType = .t721 → b.Loose key.token receivable.value) :
    (b.credited key receivable).Sound := by
  have hholds (token : TokenKey) (id : TokenValue) (place : IdPlace)
      (h' : (b.credited key receivable).Holds token id place) : b.Holds token id place ∨
        receivable.tokenType = .t721 ∧ token = key.token ∧ id = receivable.value ∧
          place = .receivable key := by
    cases place with
    | receivable found =>
        obtain ⟨htoken, stored, hput, htype, hid⟩ := h'
        change (b.receivables.put key receivable).get found = _ at hput
        rw [Table.get_put] at hput
        by_cases hkey : found = key
        · rw [if_pos hkey] at hput
          obtain rfl := Option.some.inj hput
          exact .inr ⟨htype, by rw [← htoken, hkey], hid.symm, by rw [hkey]⟩
        · rw [if_neg hkey] at hput
          exact .inl ⟨htoken, stored, hput, htype, hid⟩
    | _ => exact .inl h'
  by_cases htype : receivable.tokenType = .t721
  · have hplace (account : Account) : IdPlace.receivable key ≠ .account account := by
      intro heq
      cases heq
    exact h.put (hloose htype) rfl rfl hplace
      (fun token id place h' => (hholds token id place h').imp_right And.right) h.ordered
  · exact h.mono rfl rfl (fun token id place h' => (hholds token id place h').resolve_right
      fun hfound => htype hfound.1) h.ordered

theorem Sound.received (h : b.Sound) (hget : b.receivables.get key = some receivable) :
    (b.received key).Sound ∧
      (receivable.tokenType = .t721 → (b.received key).Loose key.token receivable.value) := by
  have hholds (token : TokenKey) (id : TokenValue) (place : IdPlace)
      (h' : (b.received key).Holds token id place) :
      b.Holds token id place ∧ place ≠ .receivable key := by
    cases place with
    | receivable found =>
        obtain ⟨htoken, stored, hdel, hstored⟩ := h'
        change (b.receivables.del key).get found = _ at hdel
        rw [Table.get_del] at hdel
        by_cases hkey : found = key
        · rw [if_pos hkey] at hdel
          cases hdel
        · rw [if_neg hkey] at hdel
          exact ⟨⟨htoken, stored, hdel, hstored⟩, fun heq => hkey (IdPlace.receivable.inj heq)⟩
    | _ => exact ⟨h', fun heq => nomatch heq⟩
  refine ⟨h.mono rfl rfl (fun token id place h' => (hholds token id place h').1) h.ordered, ?_⟩
  intro htype
  have hheld : b.Holds key.token receivable.value (.receivable key) :=
    ⟨rfl, receivable, hget, htype, rfl⟩
  exact h.gone hheld rfl fun found h' => hholds _ _ _ h'

end Receivables

section Orders

variable {key : Account × Nat} {order was : OrderInfo} {swap gone : SwapInfo}

theorem Sound.orderMade (h : b.Sound) (hnew : b.orders.get key = none)
    (hloose : order.typeOffer = .t721 → b.Loose order.tokenOffer order.valueOffer) :
    (b.orderPut key order).Sound := by
  have horders (place : Account × Nat) :
      (b.orderPut key order).orders.get place = if place = key then some order
        else b.orders.get place :=
    Table.get_put _ _ _ _
  -- no swap is about an order that was not there
  have hswap (place : Account × Nat) (found : SwapInfo) (hget : b.swaps.get place = some found) :
      (found.maker, found.orderHeight) ≠ key := by
    rintro rfl
    obtain ⟨other, hother⟩ := h.ordered place found hget
    rw [hnew] at hother
    cases hother
  have hholds (token : TokenKey) (id : TokenValue) (place : IdPlace)
      (h' : (b.orderPut key order).Holds token id place) : b.Holds token id place ∨
        order.typeOffer = .t721 ∧ token = order.tokenOffer ∧ id = order.valueOffer ∧
          place = .order key := by
    cases place with
    | order found =>
        obtain ⟨stored, hget, hoffers⟩ := h'
        rw [horders] at hget
        by_cases hkey : found = key
        · rw [if_pos hkey] at hget
          obtain rfl := Option.some.inj hget
          obtain ⟨-, htype, htoken, hid⟩ := hoffers
          exact .inr ⟨htype, htoken.symm, hid.symm, by rw [hkey]⟩
        · rw [if_neg hkey] at hget
          exact .inl ⟨stored, hget, hoffers⟩
    | swap found =>
        obtain ⟨taken, stored, hget, hstatus, horder, hwants⟩ := h'
        rw [horders, if_neg (hswap found taken hget)] at horder
        exact .inl ⟨taken, stored, hget, hstatus, horder, hwants⟩
    | _ => exact .inl h'
  have hordered (place : Account × Nat) (found : SwapInfo) (hget : b.swaps.get place = some found) :
      ∃ other, (b.orderPut key order).orders.get (found.maker, found.orderHeight) = some other := by
    rw [horders, if_neg (hswap place found hget)]
    exact h.ordered place found hget
  by_cases htype : order.typeOffer = .t721
  · have hplace (account : Account) : IdPlace.order key ≠ .account account := by
      intro heq
      cases heq
    exact h.put (hloose htype) rfl rfl hplace
      (fun token id place h' => (hholds token id place h').imp_right And.right) hordered
  · exact h.mono rfl rfl (fun token id place h' => (hholds token id place h').resolve_right
      fun hfound => htype hfound.1) hordered

-- An order that is put again offers no id any more, or never did.
theorem Sound.orderEnded (h : b.Sound) (hget : b.orders.get key = some was)
    (hends : order.finished = true ∨ order.typeOffer ≠ .t721)
    (hwants : order.typeWant = was.typeWant ∧ order.tokenWant = was.tokenWant) :
    (b.orderPut key order).Sound ∧ (was.finished = false → was.typeOffer = .t721 →
      (b.orderPut key order).Loose was.tokenOffer was.valueOffer) := by
  have horders (place : Account × Nat) :
      (b.orderPut key order).orders.get place = if place = key then some order
        else b.orders.get place :=
    Table.get_put _ _ _ _
  have hholds (token : TokenKey) (id : TokenValue) (place : IdPlace)
      (h' : (b.orderPut key order).Holds token id place) :
      b.Holds token id place ∧ place ≠ .order key := by
    cases place with
    | order found =>
        obtain ⟨stored, hput, hoffers⟩ := h'
        rw [horders] at hput
        by_cases hkey : found = key
        · rw [if_pos hkey] at hput
          obtain rfl := Option.some.inj hput
          obtain ⟨hopen, htype, -⟩ := hoffers
          rcases hends with hfinished | hother
          · rw [hfinished] at hopen
            cases hopen
          · exact absurd htype hother
        · rw [if_neg hkey] at hput
          exact ⟨⟨stored, hput, hoffers⟩, fun heq => hkey (IdPlace.order.inj heq)⟩
    | swap found =>
        obtain ⟨taken, stored, hswap, hstatus, hput, hstored, hvalue⟩ := h'
        refine ⟨?_, fun heq => nomatch heq⟩
        rw [horders] at hput
        by_cases hkey : (taken.maker, taken.orderHeight) = key
        · rw [if_pos hkey] at hput
          obtain rfl := Option.some.inj hput
          obtain ⟨htype, htoken⟩ := hstored
          exact ⟨taken, was, hswap, hstatus, hkey ▸ hget,
            ⟨hwants.1 ▸ htype, hwants.2 ▸ htoken⟩, hvalue⟩
        · rw [if_neg hkey] at hput
          exact ⟨taken, stored, hswap, hstatus, hput, hstored, hvalue⟩
    | account account => exact ⟨h', fun heq => nomatch heq⟩
    | receivable found => exact ⟨h', fun heq => nomatch heq⟩
    | _ => exact False.elim h'
  refine ⟨h.mono rfl rfl (fun token id place h' => (hholds token id place h').1) ?_, ?_⟩
  · intro place found hswap
    rw [horders]
    by_cases hkey : (found.maker, found.orderHeight) = key
    · exact ⟨order, if_pos hkey⟩
    · rw [if_neg hkey]
      exact h.ordered place found hswap
  · intro hopen htype
    have hheld : b.Holds was.tokenOffer was.valueOffer (.order key) :=
      ⟨was, hget, hopen, htype, rfl, rfl⟩
    exact h.gone hheld rfl fun found h' => hholds _ _ _ h'

private theorem swapPut_holds (hget : b.orders.get (swap.maker, swap.orderHeight) = some order)
    (h' : (b.swapPut key swap).Holds token id place) :
    b.Holds token id place ∧ place ≠ .swap key ∨ swap.status = .take ∧
      order.WantsId token ∧ swap.value = id ∧ place = .swap key := by
  cases place with
  | swap found =>
      obtain ⟨taken, stored, hput, hstatus, hstored, hwants, hvalue⟩ := h'
      change (b.swaps.put key swap).get found = _ at hput
      rw [Table.get_put] at hput
      by_cases hkey : found = key
      · rw [if_pos hkey] at hput
        obtain rfl := Option.some.inj hput
        obtain rfl := Option.some.inj (hget.symm.trans hstored)
        exact .inr ⟨hstatus, hwants, hvalue, by rw [hkey]⟩
      · rw [if_neg hkey] at hput
        exact .inl ⟨⟨taken, stored, hput, hstatus, hstored, hwants, hvalue⟩,
          fun heq => hkey (IdPlace.swap.inj heq)⟩
  | account account => exact .inl ⟨h', fun heq => nomatch heq⟩
  | receivable found => exact .inl ⟨h', fun heq => nomatch heq⟩
  | order found => exact .inl ⟨h', fun heq => nomatch heq⟩
  | _ => exact False.elim h'

-- A swap is put, or put again. One that is taken locks what was loose.
theorem Sound.swapPut (h : b.Sound)
    (hget : b.orders.get (swap.maker, swap.orderHeight) = some order)
    (hloose : swap.status = .take → order.typeWant = .t721 →
      b.Loose order.tokenWant swap.value) : (b.swapPut key swap).Sound := by
  have hordered (place : Account × Nat) (found : SwapInfo)
      (hput : (b.swapPut key swap).swaps.get place = some found) :
      ∃ order', b.orders.get (found.maker, found.orderHeight) = some order' := by
    change (b.swaps.put key swap).get place = _ at hput
    rw [Table.get_put] at hput
    by_cases hkey : place = key
    · rw [if_pos hkey] at hput
      obtain rfl := Option.some.inj hput
      exact ⟨order, hget⟩
    · rw [if_neg hkey] at hput
      exact h.ordered place found hput
  by_cases htaken : swap.status = .take ∧ order.typeWant = .t721
  · have hplace (account : Account) : IdPlace.swap key ≠ .account account := by
      intro heq
      cases heq
    refine h.put (hloose htaken.1 htaken.2) rfl rfl hplace (fun token id place h' => ?_) hordered
    rcases swapPut_holds hget h' with hheld | ⟨-, hwants, hvalue, hfound⟩
    · exact .inl hheld.1
    · exact .inr ⟨hwants.2.symm, hvalue.symm, hfound⟩
  · refine h.mono rfl rfl (fun token id place h' => ?_) hordered
    rcases swapPut_holds hget h' with hheld | ⟨hstatus, hwants, -⟩
    · exact hheld.1
    · exact absurd ⟨hstatus, hwants.1⟩ htaken

-- One that was taken and ends gives back what it has locked.
theorem Sound.swapEnded (h : b.Sound) (hgone : b.swaps.get key = some gone)
    (hstatus : gone.status = .take) (hends : swap.status ≠ .take)
    (horder : b.orders.get (gone.maker, gone.orderHeight) = some order)
    (hkey : (swap.maker, swap.orderHeight) = (gone.maker, gone.orderHeight))
    (htype : order.typeWant = .t721) : (b.swapPut key swap).Loose order.tokenWant gone.value := by
  have hheld : b.Holds order.tokenWant gone.value (.swap key) :=
    ⟨gone, order, hgone, hstatus, horder, ⟨htype, rfl⟩, rfl⟩
  refine h.gone hheld rfl fun found h' => ?_
  rcases swapPut_holds (hkey ▸ horder) h' with hheld | ⟨htaken, -⟩
  · exact hheld
  · exact absurd htaken hends

-- An order and a swap end together: what the one offers and what the other has locked are credited.
theorem Sound.traded (h : b.Sound) {filled : OrderInfo} {offerKey wantKey : TokenReceivableKey}
    {offered wanted : TokenReceivable} (hgone : b.swaps.get key = some gone)
    (hstatus : gone.status = .take)
    (horder : b.orders.get (gone.maker, gone.orderHeight) = some order)
    (hopen : order.finished = false)
    (hends : filled.finished = true ∨ filled.typeOffer ≠ .t721)
    (hwants : filled.typeWant = order.typeWant ∧ filled.tokenWant = order.tokenWant)
    (hacked : swap.status ≠ .take)
    (hkey : (swap.maker, swap.orderHeight) = (gone.maker, gone.orderHeight))
    (hoffered : offered.tokenType = .t721 → order.typeOffer = .t721 ∧
      offerKey.token = order.tokenOffer ∧ offered.value = order.valueOffer)
    (hwanted : wanted.tokenType = .t721 → order.typeWant = .t721 ∧
      wantKey.token = order.tokenWant ∧ wanted.value = gone.value) :
    ((((b.orderPut (gone.maker, gone.orderHeight) filled).credited offerKey offered).swapPut key
      swap).credited wantKey wanted).Sound := by
  obtain ⟨hfilled, hloose⟩ := h.orderEnded horder hends hwants
  have hcredited : ((b.orderPut (gone.maker, gone.orderHeight) filled).credited offerKey
      offered).Sound := by
    refine hfilled.credited fun htype => ?_
    obtain ⟨htypeOffer, htoken, hvalue⟩ := hoffered htype
    rw [htoken, hvalue]
    exact hloose hopen htypeOffer
  have hput : ((b.orderPut (gone.maker, gone.orderHeight) filled).credited offerKey
      offered).orders.get (gone.maker, gone.orderHeight) = some filled := by
    change (b.orders.put _ _).get _ = _
    rw [Table.get_put, if_pos rfl]
  have hswap : (((b.orderPut (gone.maker, gone.orderHeight) filled).credited offerKey
      offered).swapPut key swap).Sound := by
    refine hcredited.swapPut (?_ : _ = some filled) fun htaken => absurd htaken hacked
    rw [hkey]
    exact hput
  refine hswap.credited fun htype => ?_
  obtain ⟨htypeWant, htoken, hvalue⟩ := hwanted htype
  rw [htoken, hvalue, ← hwants.2]
  exact hcredited.swapEnded hgone hstatus hacked hput hkey (hwants.1.trans htypeWant)

end Orders

end IdBook

end Raicoin
