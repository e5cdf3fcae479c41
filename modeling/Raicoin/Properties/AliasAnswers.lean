import Mathlib.Data.List.Perm.Lattice
import Mathlib.Data.Set.List
import Raicoin.Alias.Search
import Raicoin.Properties.AppEffects

-- Whether a search of the aliases answers with the best of them.
namespace Raicoin

open Lib Scans AliasRpcHandler

-- The best of the accounts with a property, as many as there may be, in the order of falling credits.
structure BestOf (credit : Account → Nat) (limit : Nat) (P : Account → Prop)
    (kept : List Account) : Prop where
  nodup : kept.Nodup
  has : ∀ account ∈ kept, P account
  falling : kept.Pairwise fun a b => credit b ≤ credit a
  le : kept.length ≤ limit
  best : ∀ other, P other → other ∉ kept →
    kept.length = limit ∧ ∀ account ∈ kept, credit other ≤ credit account

-- First those of the query's own key, and then the others that begin with it.
def RanksFirst (credit : Account → Nat) (same begins : Account → Prop) (count : Nat)
    (accounts : List Account) : Prop :=
  accounts.Nodup ∧ ∃ exact rest, accounts = exact ++ rest ∧ BestOf credit count same exact ∧
    BestOf credit (count - exact.length) (fun account => begins account ∧ account ∉ exact) rest

-- No more than so many accounts have the property.
def Capped (limit : Nat) (P : Account → Prop) : Prop :=
  ∀ accounts : Finset Account, (∀ account ∈ accounts, P account) → accounts.card ≤ limit

-- An account with a text, whose key is that of the query. A query of 64 bytes has no such account.
def SameKey (text : Account → Text) (query : Text) (account : Account) : Prop :=
  query.length < 64 ∧ text account ≠ [] ∧ searchKey (text account) = searchKey query

-- The key begins with the query, or with as much of it as a key holds.
def BeginsWith (text : Account → Text) (query : Text) (account : Account) : Prop :=
  text account ≠ [] ∧
    (searchKey (text account)).take query.length = (query.take 64).map lowerByte

-- The name begins with the given one, whatever the case of the letters.
def Named (l : AliasLedger) (name : Text) (account : Account) : Prop :=
  name.map lowerByte <+: (l.nameOf account).map lowerByte

-- The credit of an account's head.
def headCredit (store : Store) (account : Account) : Nat :=
  ((store.accountInfoGet account).bind fun info => store.blockGet info.head).elim 0 Block.credit

def entryOf (l : AliasLedger) (account : Account) : SearchEntry :=
  ⟨account, l.nameOf account, l.dnsOf account⟩

def Answers (store : Store) (l : AliasLedger) (same begins : Account → Prop) (count : Nat)
    (answer : Except SearchFault (List SearchEntry)) : Prop :=
  ∃ accounts, answer = .ok (accounts.map (entryOf l)) ∧
    RanksFirst (headCredit store) same begins count accounts

theorem stringStartsWith_iff {str sub : Text} :
    stringStartsWith str sub = true ↔ sub.map lowerByte <+: str.map lowerByte := by
  unfold stringStartsWith
  induction sub generalizing str with
  | nil => simp
  | cons byte rest ih =>
      cases str with
      | nil => simp
      | cons first str =>
          have hsame : first = byte ∨ lowerByte first = lowerByte byte ↔
              lowerByte byte = lowerByte first :=
            ⟨fun h => h.elim (fun heq => heq ▸ rfl) Eq.symm, fun h => .inr h.symm⟩
          rw [List.map_cons, List.map_cons, List.cons_prefix_cons, ← ih, ← hsame]
          simp only [List.length_cons, List.zip_cons_cons, List.all_cons, Nat.add_lt_add_iff_right]
          by_cases hshort : str.length < rest.length
          · simp [hshort]
          · simp [hshort]

section Entries

variable {t : KeyTable AliasIndex} {text : Account → Text} {query : Text}

-- The entry of an account.
def keyOf (text : Account → Text) (account : Account) : List UInt8 :=
  searchKey (text account) ++ streamWrite account

theorem searchKey_length (text : Text) : (searchKey text).length = 64 := by
  rw [← toLower_ofBytes, Prefix.length_eq]

theorem aliasIndexGet_keyOf (account : Account) :
    ∃ index, aliasIndexGet (keyOf text account) = .ok index ∧ index.account = account := by
  have htake := (Inverts.take ErrorCode.STREAM 64).complete (searchKey (text account))
    (streamWrite account ++ []) (searchKey_length _)
  have hread := (@streamRead_inverts Account _).complete account [] trivial
  refine ⟨⟨.ofBytes (searchKey (text account)), account⟩, ?_, rfl⟩
  have hparse : AliasIndex.deserialize (keyOf text account) =
      .ok ⟨.ofBytes (searchKey (text account)), account⟩ [] := by
    unfold AliasIndex.deserialize keyOf
    rw [List.append_nil] at htake hread
    change EStateM.bind _ _ _ = _
    unfold EStateM.bind
    rw [show Reader.take ErrorCode.STREAM 64 (searchKey (text account) ++ streamWrite account) = _
      from htake]
    dsimp only
    change EStateM.bind _ _ _ = _
    unfold EStateM.bind
    rw [hread]
    rfl
  unfold aliasIndexGet ByteTables.parse
  rw [hparse]
  rfl

-- The keys that a scan visits are those of some accounts.
theorem accounts_of_exact (hindex : Indexes t text) {P : AliasIndex → Prop} {Q : List UInt8 → Prop}
    (hP : ∀ index : AliasIndex, P index ↔ Q index.key.bytes) {visits : Option (List (List UInt8))}
    (h : t.Exact P visits) : ∃ accounts : List Account, visits = some (accounts.map (keyOf text)) ∧
      accounts.Nodup ∧ ∀ account, account ∈ accounts ↔
        text account ≠ [] ∧ Q (searchKey (text account)) := by
  obtain ⟨entries, rfl, hpairs, hmem⟩ := h
  have hkey (account : Account) : (∃ index : AliasIndex,
      StoreKey.serialize index = keyOf text account ∧ P index) ↔ Q (searchKey (text account)) := by
    constructor
    · rintro ⟨index, hindex, hp⟩
      have hsplit := List.append_inj (hindex : index.key.bytes ++ streamWrite index.account = _)
        (by rw [index.key.length_eq, searchKey_length])
      rw [← hsplit.1, ← hP]
      exact hp
    · intro hq
      refine ⟨⟨⟨searchKey (text account), searchKey_length _⟩, account⟩, rfl, ?_⟩
      rw [hP]
      exact hq
  obtain ⟨accounts, rfl⟩ : ∃ accounts : List Account, accounts.map (keyOf text) = entries := by
    have hrange : entries ∈ Set.range (List.map (keyOf text)) := by
      rw [Set.range_list_map]
      intro bytes hbytes
      obtain ⟨account, -, rfl⟩ := (hindex bytes).mp ((hmem bytes).mp hbytes).1
      exact ⟨account, rfl⟩
    exact hrange
  refine ⟨accounts, rfl, ?_, fun account => ?_⟩
  · exact .of_map _ (hpairs.imp fun h => h.2)
  · have hinjective : Function.Injective (keyOf text) := fun a b hab => entry_inj hab
    rw [← List.mem_map_of_injective hinjective, hmem, hindex, hkey]
    refine and_congr_left fun _ => ⟨?_, fun htext => ⟨account, htext, rfl⟩⟩
    rintro ⟨other, htext, heq⟩
    rwa [hinjective heq]

theorem exact_entries (hindex : Indexes t text) (query : Text) : ∃ accounts : List Account,
    entriesBetween (t.aliasLowerBound (.ofString query)) (t.aliasUpperBound (.ofString query) 64) =
      .ok (accounts.map (keyOf text)) ∧
    accounts.Nodup ∧ ∀ account, account ∈ accounts ↔
      text account ≠ [] ∧ searchKey (text account) = searchKey query := by
  have hlength := searchKey_length query
  have hkey : (Prefix.ofString query).toLower.bytes =
      searchKey query ++ List.replicate (64 - (searchKey query).length) 0 := by
    rw [toLower_ofString, hlength]
    exact (List.append_nil _).symm
  have hexact := t.alias_exact (by omega) (by omega) hkey
  rw [hlength] at hexact
  obtain ⟨accounts, hvisits, hnodup, hmem⟩ := accounts_of_exact hindex
    (Q := fun bytes => bytes.take 64 = searchKey query) (fun index => Iff.rfl) hexact
  refine ⟨accounts, ?_, hnodup, fun account => ?_⟩
  · rw [entriesBetween, hvisits]
    rfl
  · rw [hmem, List.take_of_length_le (by rw [searchKey_length])]

-- A longer query is bounded as its first 64 bytes are.
theorem upperBound_cut (key : Prefix) {size : Nat} (h : 64 ≤ size) :
    t.aliasUpperBound key size = t.aliasUpperBound key 64 := by
  have hoffset : Prefix.ofOffset 1 (size - 1) = Prefix.ofOffset 1 63 := by
    unfold Prefix.ofOffset
    congr 2
    split_ifs <;> omega
  unfold KeyTable.aliasUpperBound
  rw [if_neg (by omega : ¬size = 0), if_neg (by omega : ¬(64 : Nat) = 0), hoffset]

theorem prefix_entries (hindex : Indexes t text) (hquery : query ≠ []) : ∃ accounts : List Account,
    entriesBetween (t.aliasLowerBound (.ofString query))
        (t.aliasUpperBound (.ofString query) query.length) = .ok (accounts.map (keyOf text)) ∧
      accounts.Nodup ∧ ∀ account, account ∈ accounts ↔ BeginsWith text query account := by
  have hpos := List.length_pos_iff.mpr hquery
  have hlength : ((query.take 64).map lowerByte).length = min 64 query.length := by
    rw [List.length_map, List.length_take]
  have hkey : (Prefix.ofString query).toLower.bytes = (query.take 64).map lowerByte ++
      List.replicate (64 - ((query.take 64).map lowerByte).length) 0 := by
    rw [toLower_ofString, hlength, searchKey]
    congr 2
    omega
  have hexact := t.alias_exact (by omega) (by omega) hkey
  have hupper : t.aliasUpperBound (.ofString query) ((query.take 64).map lowerByte).length =
      t.aliasUpperBound (.ofString query) query.length := by
    rw [hlength]
    by_cases hlong : 64 ≤ query.length
    · rw [upperBound_cut _ hlong, Nat.min_eq_left hlong]
    · rw [Nat.min_eq_right (by omega)]
  rw [hupper] at hexact
  obtain ⟨accounts, hvisits, hnodup, hmem⟩ := accounts_of_exact hindex
    (Q := fun bytes => bytes.take ((query.take 64).map lowerByte).length =
      (query.take 64).map lowerByte) (fun index => Iff.rfl) hexact
  refine ⟨accounts, ?_, hnodup, fun account => ?_⟩
  · rw [entriesBetween, hvisits]
    rfl
  · have htake : (searchKey (text account)).take (min 64 query.length) =
        (searchKey (text account)).take query.length := by
      rw [Nat.min_comm, ← List.take_take, List.take_of_length_le (l := (searchKey (text account)))
        (by rw [searchKey_length])]
    rw [hmem, hlength, htake]
    rfl

end Entries

section Rounds

variable {store : Store} {l : AliasLedger} {wanted : SearchEntry → Bool} {text : Account → Text}
  {credit : Account → Nat} {count left : Nat} {accounts : List Account}

-- Each account that has an entry can be shown.
def Readable (store : Store) (l : AliasLedger) (credit : Account → Nat) (accounts : List Account) : Prop :=
  ∀ account ∈ accounts, getSearchEntry store l account = .ok (credit account, entryOf l account)

-- What an account is found as.
def found (l : AliasLedger) (credit : Account → Nat) (account : Account) : Nat × SearchEntry :=
  (credit account, entryOf l account)

theorem found_injective : Function.Injective (found l credit) := fun a b h => by
  have hentry := congrArg (fun found : Nat × SearchEntry => found.2.account) h
  exact hentry

theorem exactRound_eq {scan : ExactScan} {account : Account}
    (hread : getSearchEntry store l account = .ok (found l credit account)) :
    exactRound store l wanted count scan (keyOf text account) =
      if wanted (entryOf l account) then scan.add count (found l credit account) else .ok scan := by
  obtain ⟨index, hindex, haccount⟩ := @aliasIndexGet_keyOf text account
  unfold exactRound
  rw [hindex]
  change (getSearchEntry store l index.account >>= _) = _
  rw [haccount, hread]
  rfl

theorem prefixRound_eq {scan : ExactScan} {result : SearchResult} {account : Account}
    (hread : getSearchEntry store l account = .ok (found l credit account)) :
    prefixRound store l wanted left scan result (keyOf text account) =
      .ok (if scan.accountCount account > 0 then result
        else if wanted (entryOf l account) then
          Multimap.keep Prod.fst left result (found l credit account) else result) := by
  obtain ⟨index, hindex, haccount⟩ := @aliasIndexGet_keyOf text account
  unfold prefixRound
  rw [hindex]
  change (if scan.accountCount index.account > 0 then _ else _) = _
  rw [haccount]
  by_cases hcount : scan.accountCount account > 0
  · rw [if_pos hcount, if_pos hcount]
    rfl
  · rw [if_neg hcount, if_neg hcount, hread]
    rfl

-- The accounts that are to be shown.
def shown (l : AliasLedger) (wanted : SearchEntry → Bool) (accounts : List Account) : List Account :=
  accounts.filter fun account => wanted (entryOf l account)

theorem shown_concat (account : Account) : shown l wanted (accounts ++ [account]) =
    shown l wanted accounts ++ if wanted (entryOf l account) then [account] else [] := by
  unfold shown
  rw [List.filter_append, List.filter_singleton]
  cases wanted (entryOf l account) with
  | true => rfl
  | false => rfl

-- What the exact part has found: nothing has gone, and each account counts once.
structure Found (l : AliasLedger) (credit : Account → Nat) (count : Nat) (accounts : List Account)
    (scan : ExactScan) : Prop where
  result : scan.result = (accounts.map (found l credit)).foldl (Multimap.keep Prod.fst count) []
  counts : ∀ account, scan.accountCount account = if account ∈ accounts then 1 else 0

theorem Found.length {scan : ExactScan} (h : Found l credit count accounts scan) :
    scan.result.length = min count accounts.length := by
  have htops := @Multimap.tops_foldl _ Prod.fst count (accounts.map (found l credit))
  rw [h.result, htops.length, List.length_map]

theorem emplace_length {α : Type} {score : α → Nat} (a : α) (kept : List α) :
    (Multimap.emplace score a kept).length = kept.length + 1 :=
  (Multimap.emplace_perm a kept).length_eq

theorem Found.add {scan : ExactScan} (h : Found l credit count accounts scan) {account : Account}
    (hnew : account ∉ accounts) (hroom : accounts.length < count) :
    ∃ next, scan.add count (found l credit account) = .ok next ∧
      Found l credit count (accounts ++ [account]) next := by
  have hlength := h.length
  have hmore := @emplace_length _ Prod.fst (found l credit account) scan.result
  have hfits : ¬(Multimap.emplace Prod.fst (found l credit account) scan.result).length > count := by
    omega
  refine ⟨_, if_neg hfits, ?_, fun other => ?_⟩
  · rw [List.map_append, List.foldl_append, ← h.result]
    exact (if_neg hfits).symm
  · change Function.update scan.accountCount account (scan.accountCount account + 1) other = _
    by_cases hother : other = account
    · rw [hother, Function.update_self, h.counts, if_neg hnew,
        if_pos (List.mem_append_right _ (List.mem_singleton_self _))]
      rfl
    · rw [Function.update_of_ne hother, h.counts]
      refine if_congr ?_ rfl rfl
      simp [hother]

-- One too many: the iterator behind the last one is used.
theorem Found.add_full {scan : ExactScan} (h : Found l credit count accounts scan) {account : Account}
    (hfull : accounts.length = count) : scan.add count (found l credit account) = .error .end_ := by
  have hlength := h.length
  have hmore := @emplace_length _ Prod.fst (found l credit account) scan.result
  have hover : (Multimap.emplace Prod.fst (found l credit account) scan.result).length > count := by
    omega
  exact (if_pos hover).trans (orReturn_stop (congrArg Prod.snd Multimap.erase_last) _ _)

theorem Readable.mono {more : List Account} (h : Readable store l credit more)
    (hsub : ∀ account ∈ accounts, account ∈ more) : Readable store l credit accounts :=
  fun account haccount => h account (hsub account haccount)

theorem exact_run (hread : Readable store l credit accounts) (hnodup : accounts.Nodup) :
    ((shown l wanted accounts).length ≤ count → ∃ scan,
      (accounts.map (keyOf text)).foldlM (exactRound store l wanted count) .empty = .ok scan ∧
        Found l credit count (shown l wanted accounts) scan) ∧
    (count < (shown l wanted accounts).length →
      (accounts.map (keyOf text)).foldlM (exactRound store l wanted count) .empty = .error .end_) := by
  induction accounts using List.reverseRecOn with
  | nil =>
      refine ⟨fun _ => ⟨.empty, rfl, rfl, fun _ => rfl⟩, fun h => ?_⟩
      exact absurd h (Nat.not_lt_zero _)
  | append_singleton accounts account ih =>
      obtain ⟨hfirst, -, hdisjoint⟩ := List.nodup_append.mp hnodup
      have hnew : account ∉ shown l wanted accounts := fun hmem =>
        hdisjoint account (List.mem_of_mem_filter hmem) account (List.mem_singleton_self _) rfl
      obtain ⟨hfits, hover⟩ := ih (hread.mono fun _ h => List.mem_append_left _ h) hfirst
      have hround := fun scan => @exactRound_eq store l wanted text credit count scan account
        (hread account (List.mem_append_right _ (List.mem_singleton_self _)))
      rw [shown_concat, List.map_append, List.foldlM_append, List.map_singleton]
      cases hwanted : wanted (entryOf l account) with
      | false =>
          rw [if_neg Bool.false_ne_true, List.append_nil]
          rw [hwanted] at hround
          refine ⟨fun hle => ?_, fun hlt => ?_⟩
          · obtain ⟨scan, hscan, hfound⟩ := hfits hle
            refine ⟨scan, ?_, hfound⟩
            rw [hscan, Except.ok_bind, List.foldlM_cons, hround]
            rfl
          · rw [hover hlt]
            rfl
      | true =>
          rw [if_pos rfl, List.length_append, List.length_singleton]
          rw [hwanted] at hround
          refine ⟨fun hle => ?_, fun hlt => ?_⟩
          · obtain ⟨scan, hscan, hfound⟩ := hfits (by omega)
            obtain ⟨next, hnext, hfound'⟩ := hfound.add hnew hle
            refine ⟨next, ?_, hfound'⟩
            rw [hscan, Except.ok_bind, List.foldlM_cons, hround, if_pos rfl, hnext]
            rfl
          · by_cases hfull : (shown l wanted accounts).length = count
            · obtain ⟨scan, hscan, hfound⟩ := hfits (by omega)
              rw [hscan, Except.ok_bind, List.foldlM_cons, hround, if_pos rfl, hfound.add_full hfull]
              rfl
            · rw [hover (by omega)]
              rfl

-- The part for the others skips the accounts that count already.
theorem prefix_run {scan : ExactScan} {exact : List Account} (hfound : Found l credit count exact scan)
    (hread : Readable store l credit accounts) (result : SearchResult) :
    (accounts.map (keyOf text)).foldlM (prefixRound store l wanted left scan) result =
      .ok ((((shown l wanted accounts).filter fun account => account ∉ exact).map
        (found l credit)).foldl (Multimap.keep Prod.fst left) result) := by
  induction accounts generalizing result with
  | nil => rfl
  | cons account rest ih =>
      have hcounts : scan.accountCount account > 0 ↔ account ∈ exact := by
        rw [hfound.counts]
        split_ifs with hmem
        · exact iff_of_true (by decide) hmem
        · exact iff_of_false (by decide) hmem
      have hrest := ih (hread.mono fun _ h => List.mem_cons_of_mem _ h)
      rw [List.map_cons, List.foldlM_cons, prefixRound_eq (hread account List.mem_cons_self),
        Except.ok_bind, hrest]
      unfold shown
      rw [List.filter_cons]
      by_cases hmem : account ∈ exact
      · rw [if_pos (hcounts.mpr hmem)]
        cases wanted (entryOf l account) with
        | true =>
            rw [if_pos rfl, List.filter_cons_of_neg]
            exact fun h => of_decide_eq_true h hmem
        | false => rfl
      · rw [if_neg (mt hcounts.mp hmem)]
        cases wanted (entryOf l account) with
        | true =>
            rw [if_pos rfl, if_pos rfl, List.filter_cons, if_pos (decide_eq_true hmem), List.map_cons,
              List.foldl_cons]
        | false => rfl

-- What is kept of the accounts that are found.
theorem bestOf_foldl (hnodup : accounts.Nodup) (limit : Nat) : ∃ kept : List Account,
    (accounts.map (found l credit)).foldl (Multimap.keep Prod.fst limit) [] =
      kept.map (found l credit) ∧ BestOf credit limit (· ∈ accounts) kept := by
  have htops := @Multimap.tops_foldl _ Prod.fst limit (accounts.map (found l credit))
  generalize (accounts.map (found l credit)).foldl (Multimap.keep Prod.fst limit) [] = result at htops ⊢
  obtain ⟨dropped, hperm, hbest⟩ := htops.best
  obtain ⟨all, hall⟩ : ∃ all : List Account, all.map (found l credit) = result ++ dropped := by
    have hrange : result ++ dropped ∈ Set.range (List.map (found l credit)) := by
      rw [Set.range_list_map]
      intro entry hentry
      obtain ⟨account, -, rfl⟩ := List.mem_map.mp (hperm.subset hentry)
      exact ⟨account, rfl⟩
    exact hrange
  obtain ⟨kept, others, rfl, rfl, rfl⟩ := List.map_eq_append_iff.mp hall
  rw [← List.map_append, List.map_perm_map_iff found_injective] at hperm
  obtain ⟨hkept, -, -⟩ := List.nodup_append.mp (hperm.nodup_iff.mpr hnodup)
  have hlength := htops.length
  rw [List.length_map, List.length_map] at hlength
  refine ⟨kept, rfl, hkept, fun account hmem => hperm.subset (List.mem_append_left _ hmem), ?_,
    by omega, fun other hother hout => ?_⟩
  · exact List.pairwise_map.mp htops.falling
  · have hin : other ∈ others :=
      (List.mem_append.mp (hperm.symm.subset hother)).resolve_left hout
    have hcount := hperm.length_eq
    have hpos := List.length_pos_of_mem hin
    rw [List.length_append] at hcount
    refine ⟨by omega, fun account haccount => ?_⟩
    exact hbest _ (List.mem_map_of_mem haccount) _ (List.mem_map_of_mem hin)

theorem BestOf.congr {P Q : Account → Prop} {limit : Nat} {kept : List Account}
    (h : BestOf credit limit P kept) (heq : ∀ account, P account ↔ Q account) :
    BestOf credit limit Q kept where
  nodup := h.nodup
  has account hmem := (heq account).mp (h.has account hmem)
  falling := h.falling
  le := h.le
  best other hother := h.best other ((heq other).mpr hother)

theorem bestOf_nil {P : Account → Prop} : BestOf credit 0 P [] where
  nodup := .nil
  has account hmem := by cases hmem
  falling := .nil
  le := Nat.le_refl 0
  best _ _ _ := ⟨rfl, fun _ hmem => (by cases hmem)⟩

end Rounds

section Search

variable {store : Store} {l : AliasLedger} {wanted : SearchEntry → Bool} {text : Account → Text}
  {t : KeyTable AliasIndex} {query : Text} {count : Nat} {P W : Account → Prop}

theorem few_iff {accounts : List Account} (hnodup : accounts.Nodup)
    (hmem : ∀ account, account ∈ accounts ↔ P account) : Capped count P ↔ accounts.length ≤ count := by
  constructor
  · intro hfew
    rw [← List.toFinset_card_of_nodup hnodup]
    exact hfew _ fun account haccount => (hmem account).mp (List.mem_toFinset.mp haccount)
  · intro hle others hothers
    refine Nat.le_trans ?_ hle
    rw [← List.toFinset_card_of_nodup hnodup]
    refine Finset.card_le_card fun account haccount => ?_
    exact List.mem_toFinset.mpr ((hmem account).mpr (hothers account haccount))

theorem mem_shown {accounts : List Account} (hwanted : ∀ account, wanted (entryOf l account) = true ↔ W account)
    {account : Account} : account ∈ shown l wanted accounts ↔ account ∈ accounts ∧ W account := by
  unfold shown
  rw [List.mem_filter, hwanted]

-- Whatever the query, the exact part goes through the accounts of the same key.
theorem exactScan_eq (hindex : Indexes t text)
    (hread : ∀ account, text account ≠ [] →
      getSearchEntry store l account = .ok (headCredit store account, entryOf l account))
    (hwanted : ∀ account, wanted (entryOf l account) = true ↔ W account) :
    ∃ exact : List Account, exact.Nodup ∧
      (∀ account, account ∈ exact ↔ SameKey text query account ∧ W account) ∧
      (exact.length ≤ count → ∃ scan, exactScan store l t query wanted count = .ok scan ∧
        Found l (headCredit store) count exact scan) ∧
      (count < exact.length → exactScan store l t query wanted count = .error .end_) := by
  unfold exactScan
  by_cases hshort : query.length < 64
  · obtain ⟨accounts, hentries, hnodup, hmem⟩ := exact_entries hindex query
    obtain ⟨hfits, hover⟩ := @exact_run store l wanted text (headCredit store) count accounts
      (fun account haccount => hread account ((hmem account).mp haccount).1) hnodup
    rw [if_pos hshort, hentries, Except.ok_bind]
    refine ⟨shown l wanted accounts, hnodup.filter _, fun account => ?_, hfits, hover⟩
    rw [mem_shown hwanted, hmem]
    refine and_congr_left fun _ => ⟨fun h => ⟨hshort, h⟩, fun h => h.2⟩
  · rw [if_neg hshort]
    refine ⟨[], .nil, fun account => ?_, fun _ => ⟨.empty, rfl, rfl, fun _ => rfl⟩, fun h => ?_⟩
    · exact iff_of_false List.not_mem_nil fun h => hshort h.1.1
    · exact absurd h (Nat.not_lt_zero _)

theorem search_answers (hindex : Indexes t text)
    (hread : ∀ account, text account ≠ [] →
      getSearchEntry store l account = .ok (headCredit store account, entryOf l account))
    (hwanted : ∀ account, wanted (entryOf l account) = true ↔ W account) (hquery : query ≠ [])
    (hfew : Capped MAX_SEARCHS_PER_QUERY (BeginsWith text query)) :
    Answers store l (fun account => SameKey text query account ∧ W account)
        (fun account => BeginsWith text query account ∧ W account) count
        (aliasSearch_ store l t query wanted count) ↔
      Capped count fun account => SameKey text query account ∧ W account := by
  obtain ⟨exact, hexact, hsame, hfits, hover⟩ :=
    @exactScan_eq store l wanted text t query count W hindex hread hwanted
  rw [few_iff hexact hsame]
  unfold aliasSearch_
  by_cases hle : exact.length ≤ count
  · refine iff_of_true ?_ hle
    obtain ⟨scan, hscan, hfound⟩ := hfits hle
    obtain ⟨first, hfirst, hbest⟩ := @bestOf_foldl l (headCredit store) exact hexact count
    rw [← hfound.result] at hfirst
    have hlength : scan.result.length = first.length := by rw [hfirst, List.length_map]
    obtain ⟨rest, hrest, hothers⟩ : ∃ rest : List Account,
        prefixScan store l t query wanted count scan = .ok (rest.map (found l (headCredit store))) ∧
          BestOf (headCredit store) (count - first.length)
            (fun account => (BeginsWith text query account ∧ W account) ∧ account ∉ first) rest := by
      unfold prefixScan
      by_cases hroom : scan.result.length < count
      · -- With room left, none of the exact part has gone.
        have hkept : ∀ account, account ∈ first ↔ account ∈ exact := fun account => by
          refine ⟨hbest.has account, fun hin => ?_⟩
          by_contra hout
          have hfull := (hbest.best account hin hout).1
          omega
        obtain ⟨accounts, hentries, hnodup, hmem⟩ := prefix_entries hindex hquery
        have hall : (accounts.map (keyOf text)).take MAX_SEARCHS_PER_QUERY = accounts.map (keyOf text) := by
          refine List.take_of_length_le ?_
          rw [List.length_map]
          exact (few_iff hnodup hmem).mp hfew
        have hreadable : Readable store l (headCredit store) accounts :=
          fun account haccount => hread account ((hmem account).mp haccount).1
        obtain ⟨rest, hkeep, hbestRest⟩ := @bestOf_foldl l (headCredit store)
          ((shown l wanted accounts).filter fun account => account ∉ exact)
          ((hnodup.filter _).filter _) (count - scan.result.length)
        refine ⟨rest, ?_, ?_⟩
        · rw [if_pos hroom, hentries, Except.ok_bind, hall, prefix_run hfound hreadable, hkeep]
        · rw [← hlength]
          refine hbestRest.congr fun account => ?_
          rw [List.mem_filter, mem_shown hwanted, hmem, decide_eq_true_eq, hkept]
      · refine ⟨[], if_neg hroom, ?_⟩
        rw [show count - first.length = 0 by omega]
        exact bestOf_nil
    refine ⟨first ++ rest, ?_, ?_, first, rest, rfl, hbest.congr hsame, hothers⟩
    · rw [hscan, Except.ok_bind, hrest, Except.ok_bind, hfirst, ← List.map_append, List.map_map]
      rfl
    · refine List.nodup_append.mpr ⟨hbest.nodup, hothers.nodup, fun a ha b hb heq => ?_⟩
      exact (hothers.has b hb).2 (heq ▸ ha)
  · refine iff_of_false ?_ hle
    rintro ⟨accounts, hanswer, -⟩
    rw [hover (by omega)] at hanswer
    cases hanswer

-- With one account too many of the very key, the exact part stops.
theorem search_over (hindex : Indexes t text)
    (hread : ∀ account, text account ≠ [] →
      getSearchEntry store l account = .ok (headCredit store account, entryOf l account))
    (hwanted : ∀ account, wanted (entryOf l account) = true ↔ W account)
    (hmany : ¬Capped count fun account => SameKey text query account ∧ W account) :
    aliasSearch_ store l t query wanted count = .error .end_ := by
  obtain ⟨exact, hexact, hsame, -, hover⟩ :=
    @exactScan_eq store l wanted text t query count W hindex hread hwanted
  rw [few_iff hexact hsame] at hmany
  unfold aliasSearch_
  rw [hover (by omega)]
  rfl

end Search

section Ledger

variable {env : Env} {blocks : Set Block}
  {history : History (App (AliasLedger × List HandlerCall)) (AppAction (AliasCall → Bool))}
  {s : App (AliasLedger × List HandlerCall)}

theorem aliasHooks_sound {fails : AliasCall → Bool} {store : Store} {l l' : AliasLedger} {block : Block}
    {confirmed : Bool} (hl : l.Sound)
    (h : (aliasHooks env).afterBlockAppend fails store block confirmed l = .ok l') : l'.Sound := by
  cases hsome : aliasExtensions block with
  | none => rwa [aliasHooks_skip hsome h]
  | some extensions => exact hl.process (aliasExtensions_valid hsome) (aliasHooks_process hsome h)

-- The tables of the names follow the names, whatever the chains go through.
theorem aliasRun_sound (happart : Apart env blocks)
    (hrun : AppRun env (aliasApp env) .empty blocks history s) : s.ledger.1.Sound := by
  refine hrun.invariant (P := fun _ s => s.ledger.1.Sound) ?_ ?_
  · rintro s rfl
    exact AliasLedger.empty_sound
  · intro history s action hrun hfits _ hl
    cases action with
    | process fails refused block confirmed waiting =>
        dsimp only [Machine.step]
        unfold App.processBlock
        split
        · exact hl
        cases happend : App.appendBlock_ env (aliasApp env).noting fails refused block confirmed s with
        | error code => exact hl
        | ok s' =>
            dsimp only [App.committed]
            rcases App.appendBlock_ok happend with ⟨-, -, hafter⟩ | ⟨-, -, hledger⟩
            · obtain ⟨ledger, hledger, hnoted⟩ := (Except.bind_eq_ok _ _ _).mp hafter
              rw [← Except.ok.inj hnoted]
              exact aliasHooks_sound hl hledger
            · rwa [hledger]
    | rollback fails block =>
        dsimp only [Machine.step]
        unfold App.processBlockRollback
        split
        · exact hl
        cases hrollback : App.rollbackBlock_ env (aliasApp env).noting fails block s with
        | error code => exact hl
        | ok s' =>
            dsimp only [App.committed]
            obtain ⟨chains, heffective⟩ := AppRun.effective (aliasApp_guarded env) happart hrun
            obtain ⟨rest, hrolled⟩ :=
              rollbackBlock_rolledBack happart heffective.shows hfits hrollback
            rwa [hrolled.ledger]

-- Whoever has a text has a chain, so that the head can be shown with it.
theorem entries_readable (happart : Apart env blocks)
    (hrun : AppRun env (aliasApp env) .empty blocks history s) {account : Account}
    (hhas : s.ledger.1.aliasInfoGet account ≠ none) :
    getSearchEntry s.store s.ledger.1 account =
      .ok (headCredit s.store account, entryOf s.ledger.1 account) := by
  obtain ⟨chains, heffective⟩ := hrun.effective (aliasApp_guarded env) happart
  obtain ⟨info, hinfo⟩ := Option.ne_none_iff_exists'.mp hhas
  have hhead := heffective.heads (aliasApp_guarded env) account
  change (s.ledger.1.aliasInfoGet account).map _ = _ at hhead
  rw [hinfo, Option.map_some] at hhead
  obtain ⟨block, hblock, -⟩ := Option.map_eq_some_iff.mp hhead.symm
  cases hchain : chains account with
  | nil =>
      rw [hchain] at hblock
      cases hblock
  | cons b rest =>
      obtain ⟨accountInfo, haccount, hvalid, hhash, -⟩ :=
        heffective.shows.info_of_head happart hchain
      have hget : s.store.blockGet accountInfo.head = some b := by
        rw [hhash, Store.blockGet, heffective.shows.head_get hchain]
        rfl
      have hcredit : headCredit s.store account = b.credit := by
        rw [headCredit, haccount, Option.bind_some, hget]
        rfl
      have hentry : entryOf s.ledger.1 account = ⟨account, info.name, info.dns⟩ := by
        unfold entryOf AliasLedger.nameOf AliasLedger.dnsOf AliasLedger.infoOf
        rw [hinfo]
        rfl
      unfold getSearchEntry
      rw [orReturn_pass hinfo, haccount, Option.filter_some, if_pos hvalid, orReturn_pass rfl,
        orReturn_pass hget, hcredit, hentry]
      rfl

theorem text_has {field : AliasInfo → Text} {l : AliasLedger} (hnew : field .new = []) {account : Account}
    (htext : field (l.infoOf account) ≠ []) : l.aliasInfoGet account ≠ none := by
  intro hnone
  refine htext ?_
  unfold AliasLedger.infoOf
  rw [hnone]
  exact hnew

end Ledger

-- A search lists the best matches where no more accounts have the very key than it may list. Where
-- more have it, it uses an iterator that points to nothing.
theorem alias_answers_exact {env : Env} {blocks : Set Block}
    {history : History (App (AliasLedger × List HandlerCall)) (AppAction (AliasCall → Bool))}
    {s : App (AliasLedger × List HandlerCall)} (happart : Apart env blocks)
    (hrun : AppRun env (aliasApp env) .empty blocks history s) {query name : Text} {count : Nat}
    (hquery : query ≠ []) :
    ((Capped MAX_SEARCHS_PER_QUERY (BeginsWith s.ledger.1.nameOf query) →
        (Answers s.store s.ledger.1 (SameKey s.ledger.1.nameOf query)
            (BeginsWith s.ledger.1.nameOf query) count
            (aliasSearchByName s.store s.ledger.1 query count) ↔
          Capped count (SameKey s.ledger.1.nameOf query))) ∧
      (¬Capped count (SameKey s.ledger.1.nameOf query) →
        aliasSearchByName s.store s.ledger.1 query count = .error .end_)) ∧
    (Capped MAX_SEARCHS_PER_QUERY (BeginsWith s.ledger.1.dnsOf query) →
      (Answers s.store s.ledger.1
          (fun account => SameKey s.ledger.1.dnsOf query account ∧ Named s.ledger.1 name account)
          (fun account => BeginsWith s.ledger.1.dnsOf query account ∧ Named s.ledger.1 name account)
          count (aliasSearchByDns s.store s.ledger.1 query name count) ↔
        Capped count fun account =>
          SameKey s.ledger.1.dnsOf query account ∧ Named s.ledger.1 name account)) ∧
      ((¬Capped count fun account =>
          SameKey s.ledger.1.dnsOf query account ∧ Named s.ledger.1 name account) →
        aliasSearchByDns s.store s.ledger.1 query name count = .error .end_) := by
  have hsound := aliasRun_sound happart hrun
  have hnames := fun account (htext : s.ledger.1.nameOf account ≠ []) =>
    entries_readable happart hrun (text_has rfl htext)
  have hdns := fun account (htext : s.ledger.1.dnsOf account ≠ []) =>
    entries_readable happart hrun (text_has rfl htext)
  refine ⟨⟨fun hfew => ?_, fun hmany => ?_⟩, fun hfew => ?_, fun hmany => ?_⟩
  · have hall := @search_answers s.store s.ledger.1 (fun _ => true) _ _ query count
      (fun _ => True) hsound.index hnames (fun _ => iff_of_true rfl trivial) hquery hfew
    simp only [and_true] at hall
    exact hall
  · refine search_over (W := fun _ => True) hsound.index hnames (fun _ => iff_of_true rfl trivial) ?_
    simp only [and_true]
    exact hmany
  · exact search_answers hsound.dnsIndex hdns (fun _ => stringStartsWith_iff) hquery hfew
  · exact search_over hsound.dnsIndex hdns (fun _ => stringStartsWith_iff) hmany

section Sample

-- The names of the run, in one evaluation.
theorem bob_texts : bobRun.2.ledger.1.infos.keys ⊆ {1, 2, 3} ∧
    bobRun.2.ledger.1.nameOf 1 = [98, 111] ∧ bobRun.2.ledger.1.nameOf 2 = [66, 111] ∧
      bobRun.2.ledger.1.nameOf 3 = [66, 111, 108, 116] := by
  decide +kernel

-- No accounts but three have one.
theorem bob_names {account : Account} (h : bobRun.2.ledger.1.nameOf account ≠ []) :
    account ∈ ({1, 2, 3} : Finset Account) := by
  by_contra hother
  refine text_has rfl h ?_
  unfold AliasLedger.aliasInfoGet
  cases hget : bobRun.2.ledger.1.infos.get account with
  | none => rfl
  | some bytes => exact absurd (bob_texts.1 ((Table.mem_keys _ _).mpr ⟨bytes, hget⟩)) hother

theorem few_bobs {limit : Nat} {P : Account → Prop} (others : Finset Account)
    (hlimit : others.card ≤ limit)
    (hP : ∀ account, P account → bobRun.2.ledger.1.nameOf account ≠ [])
    (hothers : ∀ account ∈ ({1, 2, 3} : Finset Account), P account → account ∈ others) :
    Capped limit P := by
  intro accounts haccounts
  have hsubset : accounts ⊆ others := fun account haccount =>
    hothers account (bob_names (hP account (haccounts account haccount))) (haccounts account haccount)
  exact Nat.le_trans (Finset.card_le_card hsubset) hlimit

-- The third account has another key.
theorem bo_keys {limit : Nat} (hlimit : 2 ≤ limit) :
    Capped limit (SameKey bobRun.2.ledger.1.nameOf [98, 111]) := by
  refine few_bobs {1, 2} hlimit (fun _ h => h.2.1) fun account hmem hsame => ?_
  have hthird : ¬searchKey (bobRun.2.ledger.1.nameOf 3) = searchKey [98, 111] := by
    rw [bob_texts.2.2.2]
    decide
  simp only [Finset.mem_insert, Finset.mem_singleton] at hmem ⊢
  rcases hmem with hfirst | hsecond | rfl
  · exact .inl hfirst
  · exact .inr hsecond
  · exact absurd hsame.2.2 hthird

theorem two_bos : ¬Capped 1 (SameKey bobRun.2.ledger.1.nameOf [98, 111]) := by
  intro hcapped
  obtain ⟨-, hfirst, hsecond, -⟩ := bob_texts
  have hsame : ∀ account ∈ ({1, 2} : Finset Account),
      SameKey bobRun.2.ledger.1.nameOf [98, 111] account := by
    intro account hmem
    simp only [Finset.mem_insert, Finset.mem_singleton] at hmem
    rcases hmem with rfl | rfl
    · exact ⟨by decide, by rw [hfirst]; decide, by rw [hfirst]⟩
    · exact ⟨by decide, by rw [hsecond]; decide, by rw [hsecond]; decide⟩
  have hle := hcapped _ hsame
  exact absurd hle (by decide)

-- A search for "bo": the two of this name by their credits, then "Bolt". With a place for one it
-- ends behind the last.
theorem bob_answered :
    aliasSearchByName bobRun.2.store bobRun.2.ledger.1 [98, 111] 3 =
        .ok [⟨2, [66, 111], []⟩, ⟨1, [98, 111], []⟩, ⟨3, [66, 111, 108, 116], []⟩] ∧
      Answers bobRun.2.store bobRun.2.ledger.1 (SameKey bobRun.2.ledger.1.nameOf [98, 111])
        (BeginsWith bobRun.2.ledger.1.nameOf [98, 111]) 3
        (aliasSearchByName bobRun.2.store bobRun.2.ledger.1 [98, 111] 3) ∧
      aliasSearchByName bobRun.2.store bobRun.2.ledger.1 [98, 111] 1 = .error .end_ := by
  have hthree := (@alias_answers_exact _ _ _ _ bob_apart bobRun_run [98, 111] [] 3 (by decide)).1.1
  have hone := (@alias_answers_exact _ _ _ _ bob_apart bobRun_run [98, 111] [] 1 (by decide)).1.2
  have hfew : Capped MAX_SEARCHS_PER_QUERY (BeginsWith bobRun.2.ledger.1.nameOf [98, 111]) :=
    few_bobs {1, 2, 3} (by decide) (fun _ h => h.1) fun _ hmem _ => hmem
  exact ⟨by decide +kernel, (hthree hfew).mpr (bo_keys (by decide)), hone two_bos⟩

end Sample

end Raicoin
