import Raicoin.Properties.Orders
import Raicoin.Properties.TokenScans
import Raicoin.Token.IdMoves
import Raicoin.Token.Lookups

-- The lookups of an owner and of the largest id agree with the ledger.
namespace Raicoin

open Lib Scans

section Firsts

variable {α : Type} {r : α → α → Prop} {entries : List α} {a b : α}

-- What an iteration begins with.
theorem first_least (h : entries.Pairwise r) (hfirst : entries.head? = some a) (hb : b ∈ entries) :
    a = b ∨ r a b := by
  cases entries with
  | nil => cases hb
  | cons first rest =>
      obtain rfl := Option.some.inj hfirst
      rcases List.mem_cons.mp hb with rfl | hrest
      · exact .inl rfl
      · exact .inr ((List.pairwise_cons.mp h).1 b hrest)

end Firsts

variable {l : TokenLedger} {token : TokenKey} {id : TokenValue} {account : Account}

section Owners

theorem mem_lowerBound {key : TokenIdTransferKey} :
    key ∈ l.tokenIdTransferLowerBound token id none ↔
      (∃ value, l.idTransfers.get key = some value) ∧
        TokenIdTransferKey.front ⟨token, id, 0⟩ ≤ key.front := by
  rw [TokenLedger.tokenIdTransferLowerBound, List.mem_filter, mem_inOrder, Table.mem_keys,
    decide_eq_true_eq]

theorem front_le_of_mem {index : Nat} {key : TokenIdTransferKey}
    (h : key ∈ l.tokenIdTransferLowerBound token id (some index)) :
    TokenIdTransferKey.front ⟨token, id, 0⟩ ≤ key.front := by
  have hbefore := of_decide_eq_true (List.mem_filter.mp h).2
  have hfront : TokenIdTransferKey.front ⟨token, id, index⟩ =
      TokenIdTransferKey.front ⟨token, id, 0⟩ := rfl
  unfold transferBefore at hbefore
  omega

-- The end of the scan is past every transfer of the id, even if it lies past some of the next one.
theorem front_lt_of_mem_upperBound {key : TokenIdTransferKey}
    (h : key ∈ l.tokenIdTransferUpperBound token id 0) :
    TokenIdTransferKey.front ⟨token, id, 0⟩ < key.front := by
  unfold TokenLedger.tokenIdTransferUpperBound at h
  rw [if_neg (by simp)] at h
  dsimp only at h
  by_cases hidNext : id + 1 ≠ 0
  · rw [if_pos hidNext] at h
    have hle := front_le_of_mem h
    have hid := ((next_union id).resolve_left fun hzero => hidNext hzero.1).2
    unfold TokenIdTransferKey.front at *
    dsimp only at *
    omega
  · rw [if_neg hidNext] at h
    have hid := ((next_union id).resolve_right fun hnext => hidNext hnext.1).2
    have hidZero : (id + 1).toNat = 0 := by
      rw [not_not.mp hidNext]
      rfl
    by_cases hchainNext : token.chain + 1 ≠ 0
    · rw [if_pos hchainNext] at h
      have hle := front_le_of_mem h
      have hchain := ((next_chain token.chain).resolve_left fun hzero => hchainNext hzero.1).2
      unfold TokenIdTransferKey.front TokenKey.number at *
      dsimp only at *
      omega
    · rw [if_neg hchainNext] at h
      have hchain := ((next_chain token.chain).resolve_right fun hnext => hchainNext hnext.1).2
      have hchainZero : (token.chain + 1).toNat = 0 := by
        rw [not_not.mp hchainNext]
        rfl
      by_cases haddressNext : token.address + 1 ≠ 0
      · rw [if_pos haddressNext] at h
        have hle := front_le_of_mem h
        have haddress :=
          ((next_union token.address).resolve_left fun hzero => haddressNext hzero.1).2
        unfold TokenIdTransferKey.front TokenKey.number at *
        dsimp only at *
        omega
      · rw [if_neg haddressNext] at h
        cases h

-- The scan begins with the newest transfer of an id, which is that to its owner.
theorem owner_found (hsound : l.idBook.Sound)
    (howned : l.accountTokenIds.contains ⟨account, token, id⟩ = true) :
    l.getTokenIdOwner token id = account := by
  have hheld : l.idBook.Holds token id (.account account) := (Table.contains_iff _ _).mp howned
  obtain ⟨info, index, height, hinfo, hindex, hlast⟩ := hsound.newest account token id hheld
  have hlast' : l.idTransfers.get ⟨token, id, index⟩ = some (account, height) := hlast
  have hmem : (⟨token, id, index⟩ : TokenIdTransferKey) ∈
      l.tokenIdTransferLowerBound token id none := mem_lowerBound.mpr ⟨⟨_, hlast'⟩, Nat.le_refl _⟩
  cases hfirst : (l.tokenIdTransferLowerBound token id none).head? with
  | none =>
      rw [List.head?_eq_none_iff.mp hfirst] at hmem
      cases hmem
  | some first =>
      obtain ⟨hstored, hfront⟩ := mem_lowerBound.mp (List.mem_of_head? hfirst)
      -- nothing is newer than the last transfer
      have hnewest : first = ⟨token, id, index⟩ := by
        have hsorted : (l.tokenIdTransferLowerBound token id none).Pairwise transferBefore :=
          (pairwise_inOrder transferBefore _).filter _
        rcases first_least hsorted hfirst hmem with heq | hbefore
        · exact heq
        · have hsame : first.front = TokenIdTransferKey.front ⟨token, id, index⟩ := by
            have hfront' : TokenIdTransferKey.front ⟨token, id, 0⟩ =
              TokenIdTransferKey.front ⟨token, id, index⟩ := rfl
            unfold transferBefore at hbefore
            omega
          obtain ⟨htoken, hid⟩ := TokenIdTransferKey.front_inj.mp hsame
          have hle : index ≤ first.index := by
            unfold transferBefore at hbefore
            dsimp only at hbefore
            omega
          obtain ⟨found, hfound, hlt⟩ := (hsound.indexes first).mp hstored
          rw [htoken, hid] at hfound
          obtain rfl := Option.some.inj (hinfo.symm.trans hfound)
          have hfirstIndex : first.index = index := by omega
          obtain ⟨firstToken, firstId, firstIndex⟩ := first
          cases htoken
          cases hid
          cases hfirstIndex
          rfl
      have hend : some first ≠ (l.tokenIdTransferUpperBound token id 0).head? := by
        intro heq
        have hlt := front_lt_of_mem_upperBound (List.mem_of_head? heq.symm)
        rw [hnewest] at hlt
        exact absurd hlt (Nat.lt_irrefl _)
      unfold TokenLedger.getTokenIdOwner
      dsimp only
      rw [hfirst, if_neg hend, hnewest, Option.bind_some, hlast']
      exact if_pos howned

-- Whatever the scan comes upon, an account that does not have the id is not its owner.
theorem owner_missed
    (hnone : ∀ account, l.accountTokenIds.contains ⟨account, token, id⟩ = false) :
    l.getTokenIdOwner token id = 0 := by
  unfold TokenLedger.getTokenIdOwner
  dsimp only
  by_cases hend : (l.tokenIdTransferLowerBound token id none).head? =
      (l.tokenIdTransferUpperBound token id 0).head?
  · rw [if_pos hend]
  · rw [if_neg hend]
    cases (l.tokenIdTransferLowerBound token id none).head?.bind l.idTransfers.get with
    | none => rfl
    | some value => exact if_neg (by rw [hnone]; decide)

end Owners

section Largest

theorem TokenIdKey.inverts : Inverts deserialize serialize fun _ => True := by
  refine .congr (?_ : Inverts _ (fun key : TokenIdKey =>
    TokenKey.serialize key.token ++ (streamWrite (~~~key.id) ++ [])) _)
    (fun key _ => by rw [List.append_nil]; rfl) fun key => Iff.rfl
  refine .bind TokenIdKey.token tokenKey_inverts (fun _ _ => trivial) fun token _ => ?_
  refine .bind (fun key : TokenIdKey => ~~~key.id) streamRead_inverts (fun _ _ => trivial) fun id _ => ?_
  refine .done ⟨⟨trivial, rfl⟩, BitVec.not_not⟩ fun key ⟨⟨_, htoken⟩, hid⟩ => ?_
  rw [← htoken, ← hid, BitVec.not_not]

theorem TokenIdKey.place_eq (key : TokenIdKey) : KeyTable.place key =
    TokenKey.number key.token * 256 ^ 32 + (2 ^ 256 - 1 - key.id.toNat) := by
  have hid : (~~~key.id).toNat = 2 ^ 256 - 1 - key.id.toNat := BitVec.toNat_not
  simp only [KeyTable.place, StoreKey.serialize, serialize, fromBigEndian_append,
    fromBigEndian_streamWrite, TokenKey.fromBigEndian_serialize, streamWrite_length, Wire.size,
    Wire.toNat, hid]

theorem stored_iff {key : TokenIdKey} : l.tokenIdTable.Stored key ↔
    ∃ info, l.tokenIds.get (key.token, key.id) = some info := by
  constructor
  · intro hstored
    obtain ⟨found, hfound, hbytes⟩ := Finset.mem_image.mp hstored
    have hkey : (⟨found.1, found.2⟩ : TokenIdKey) = key :=
      TokenIdKey.inverts.injective trivial trivial hbytes
    rw [← hkey]
    exact (Table.mem_keys _ _).mp hfound
  · exact fun hget => Finset.mem_image.mpr ⟨(key.token, key.id), (Table.mem_keys _ _).mpr hget, rfl⟩

-- The scan begins at the first place of the token, where its largest id is.
theorem tokenIdTable_first (token : TokenKey) :
    l.tokenIdTable.setRange ⟨token, ~~~0⟩ =
      l.tokenIdTable.at_ (TokenKey.number token * 256 ^ 32) := by
  apply KeyTable.setRange_of
  rw [TokenIdKey.place_eq]
  dsimp only
  have hzero : (~~~(0 : TokenValue)).toNat = 2 ^ 256 - 1 := by decide
  omega

-- The first entry that is not below a number has the least number of them.
theorem first_key {number : Nat} {bytes : List UInt8}
    (h : (l.tokenIdTable.at_ number).head? = some bytes) :
    ∃ key : TokenIdKey, key.serialize = bytes ∧ l.tokenIdTable.Stored key ∧
      number ≤ KeyTable.place key ∧ ∀ other : TokenIdKey, l.tokenIdTable.Stored other →
        number ≤ KeyTable.place other → KeyTable.place key ≤ KeyTable.place other := by
  obtain ⟨hbytes, hle⟩ := KeyTable.mem_at.mp (List.mem_of_head? h)
  obtain ⟨key, rfl⟩ := l.tokenIdTable.written bytes hbytes
  refine ⟨key, rfl, hbytes, hle, fun other hother hnumber => ?_⟩
  have hsorted : (l.tokenIdTable.at_ number).Pairwise fun a b =>
      fromBigEndian a < fromBigEndian b := l.tokenIdTable.pairwise_place.filter _
  have hmem : StoreKey.serialize other ∈ l.tokenIdTable.at_ number :=
    KeyTable.mem_at.mpr ⟨hother, hnumber⟩
  rcases first_least hsorted h hmem with heq | hlt
  · exact Nat.le_of_eq (congrArg fromBigEndian heq)
  · exact Nat.le_of_lt hlt

-- What the scan comes upon first is the largest id of its token.
theorem maxTokenIdGet_of_first {bytes : List UInt8} {key : TokenIdKey}
    (hfirst : (l.tokenIdTable.at_ (TokenKey.number token * 256 ^ 32)).head? = some bytes)
    (hkey : key.serialize = bytes) :
    l.maxTokenIdGet token = if key.token ≠ token then none else some key.id := by
  unfold TokenLedger.maxTokenIdGet
  rw [tokenIdTable_first, hfirst, ← hkey]
  have hparse : ByteTables.parse TokenIdKey.deserialize key.serialize = some key :=
    ByteTables.parse_write TokenIdKey.inverts trivial
  simp only [Option.bind_eq_bind, Option.bind_some, hparse]

theorem max_found {max : TokenValue} (h : l.maxTokenIdGet token = some max) :
    (∃ info, l.tokenIds.get (token, max) = some info) ∧
      ∀ id info, l.tokenIds.get (token, id) = some info → id ≤ max := by
  cases hfirst : (l.tokenIdTable.at_ (TokenKey.number token * 256 ^ 32)).head? with
  | none =>
      unfold TokenLedger.maxTokenIdGet at h
      rw [tokenIdTable_first, hfirst] at h
      cases h
  | some bytes =>
      obtain ⟨key, hbytes, hstored, -, hleast⟩ := first_key hfirst
      rw [maxTokenIdGet_of_first hfirst hbytes] at h
      by_cases htoken : key.token ≠ token
      · rw [if_pos htoken] at h
        cases h
      · rw [if_neg htoken] at h
        obtain rfl := Option.some.inj h
        obtain rfl := not_not.mp htoken
        refine ⟨stored_iff.mp hstored, fun id info hget => ?_⟩
        have hle := hleast ⟨key.token, id⟩ (stored_iff.mpr ⟨info, hget⟩)
        rw [TokenIdKey.place_eq, TokenIdKey.place_eq] at hle
        have hid := id.isLt
        have hmax := key.id.isLt
        refine BitVec.le_def.mpr ?_
        dsimp only at hle
        omega

theorem max_missed (h : l.maxTokenIdGet token = none) (id : TokenValue) :
    l.tokenIds.get (token, id) = none := by
  cases hget : l.tokenIds.get (token, id) with
  | none => rfl
  | some info =>
      have hstored : l.tokenIdTable.Stored ⟨token, id⟩ := stored_iff.mpr ⟨info, hget⟩
      have hplace : TokenKey.number token * 256 ^ 32 ≤ KeyTable.place (⟨token, id⟩ : TokenIdKey) := by
        rw [TokenIdKey.place_eq]
        exact Nat.le_add_right _ _
      cases hfirst : (l.tokenIdTable.at_ (TokenKey.number token * 256 ^ 32)).head? with
      | none =>
          have hmem := KeyTable.mem_at.mpr ⟨hstored, hplace⟩
          rw [List.head?_eq_none_iff.mp hfirst] at hmem
          cases hmem
      | some bytes =>
          obtain ⟨key, hbytes, -, hnumber, hleast⟩ := first_key hfirst
          rw [maxTokenIdGet_of_first hfirst hbytes] at h
          by_cases htoken : key.token ≠ token
          · have hle := hleast ⟨token, id⟩ hstored hplace
            rw [TokenIdKey.place_eq, TokenIdKey.place_eq] at hle
            rw [TokenIdKey.place_eq] at hnumber
            have hkey := key.id.isLt
            refine absurd (TokenKey.number_inj.mpr ?_) htoken
            dsimp only at hle
            omega
          · rw [if_neg htoken] at h
            cases h

end Largest

-- What the lookups tell of a token: who has an id, and how far its ids go.
structure LookupsAgree (l : TokenLedger) (token : TokenKey) : Prop where
  owner : ∀ id account, l.accountTokenIds.contains ⟨account, token, id⟩ = true →
    l.getTokenIdOwner token id = account
  nobody : ∀ id, (∀ account, l.accountTokenIds.contains ⟨account, token, id⟩ = false) →
    l.getTokenIdOwner token id = 0
  unknown : ∀ id, l.tokenIds.get (token, id) = none → l.getTokenIdOwner token id = 0
  elsewhere : ∀ id place, l.idBook.At token id place → (∀ account, place ≠ .account account) →
    l.getTokenIdOwner token id = 0
  max : match l.maxTokenIdGet token with
    | some max => (∃ info, l.tokenIds.get (token, max) = some info) ∧
      ∀ id info, l.tokenIds.get (token, id) = some info → id ≤ max
    | none => ∀ id, l.tokenIds.get (token, id) = none

theorem lookups_agree {env : Env} {history : TokenHistory} (hrun : TokenRun env history l)
    (token : TokenKey) : LookupsAgree l token := by
  have hsound := (run_idSound hrun).2
  -- an owner is a place where the id is
  have hnobody (id : TokenValue) (h : ∀ account, ¬l.idBook.At token id (.account account))
      (account : Account) : l.accountTokenIds.contains ⟨account, token, id⟩ = false := by
    rw [Bool.eq_false_iff]
    intro howned
    exact h account (.inl ((Table.contains_iff _ _).mp howned))
  constructor
  · exact fun id account howned => owner_found hsound howned
  · exact fun id hnone => owner_missed hnone
  · intro id hunknown
    refine owner_missed (hnobody id fun account hat => ?_)
    obtain ⟨info, hget⟩ := hsound.known token id _ hat
    have hget' : l.tokenIds.get (token, id) = some info := hget
    rw [hunknown] at hget'
    cases hget'
  · intro id place hat hplace
    refine owner_missed (hnobody id fun account howned => ?_)
    exact hplace account (hsound.alone token id place _ hat howned)
  · cases hmax : l.maxTokenIdGet token with
    | some max => exact max_found hmax
    | none => exact max_missed hmax

-- Account 1 mints the id 7 of its token for account 2, which receives it.
section Minted

def collectionInfo : ExtensionTokenInfo := ⟨.RAICOIN_TEST, .t721, 1⟩

def collectionReceive : ExtensionTokenReceive where
  token := collectionInfo
  source := .mint
  from_ := 1
  blockHeight := 1
  txHash := sampleEnv.hash (tradeBlock 1 1)
  value := 7
  unwrapChain := .INVALID
  index := 0

def mintedTrade : Script :=
  [(tradeBlock 1 0, .operation (.create (.token721 ⟨"token", "T", "", 0, true, true⟩)) (by decide)),
   (tradeBlock 1 1, .operation (.mint ⟨.t721, 2, 7, ""⟩) (by decide)),
   (tradeBlock 2 0, .operation (.receive collectionReceive) (by decide))]

theorem minted_id_found : mintedTrade.run.2.getTokenIdOwner collectionInfo.key 7 = 2 := by
  have hrun : TokenRun sampleEnv mintedTrade.run.1 mintedTrade.run.2 :=
    Script.run_spec (by decide) fun _ _ => trivial
  exact (lookups_agree hrun collectionInfo.key).owner 7 2 (by decide +kernel)

end Minted

end Raicoin
